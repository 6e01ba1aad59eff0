import Mathlib
import PathQuery.Session.History

/-!
# Steps of a session

A field takes or refuses a value whatever the settings are, and it takes back what it held, so saved
settings can always be restored. With that `Move` lists all that a step can do to a session, and a
step that fails does nothing to it.
-/
namespace PathQuery

/-- The fault that a failed validation is reported as. -/
def Checked.fault? {α : Type} : Checked α → Option Fault
  | valid _ => none
  | invalid issues => some (.invalid issues)

theorem Checked.fault?_within_map {α β : Type} (g : α → β) (name : String) (x : Checked α) :
    ((x.map g).within name).fault? = (x.within name).fault? := by
  cases x <;> rfl

namespace Settings

theorem Field.ofName?_eq_some_iff {name : String} {f : Field} :
    Field.ofName? name = some f ↔ f.name = name := by
  constructor
  · intro h
    simpa using List.find?_some h
  · rintro rfl
    exact Field.ofName?_name f

/-- What stands in the way of assigning a value to a field. -/
def Field.refusal? (f : Field) (v : Value) : Option Fault :=
  match f with
  | logLevel => ((readLevel v).within f.name).fault?
  | richTracebacks | traceSegments => ((readFlag v).within f.name).fault?

theorem fault?_assign (s : Settings) (f : Field) (v : Value) :
    (s.assign f v).fault? = f.refusal? v := by
  cases f <;> exact Checked.fault?_within_map _ _ _

theorem readLevel_name (l : Level) : readLevel (.text l.name) = .valid l := by
  simp only [readLevel, Level.ofName?_name]

theorem readFlag_bool (b : Bool) : readFlag (.bool b) = .valid b := rfl

end Settings

namespace Session
open Settings

/-- What stands in the way of an entry of an override. -/
def refusal? (e : String × Value) : Option Fault :=
  match Field.ofName? e.1 with
  | none => some (.unknownField e.1)
  | some f => f.refusal? e.2

/-- Entries are assigned one after the other, and the first that is refused decides the fault:
whether an entry is refused does not depend on those before it. -/
theorem exists_assignAll (s : Session) (values : List (String × Value)) :
    ∃ settings, s.assignAll values =
      ({ s with settings := settings }, values.findSome? refusal?) := by
  induction values generalizing s with
  | nil => exact ⟨s.settings, rfl⟩
  | cons e rest ih =>
    obtain ⟨name, v⟩ := e
    rw [List.findSome?_cons]
    cases hf : Field.ofName? name with
    | none => exact ⟨s.settings, by simp [assignAll, refusal?, hf]⟩
    | some f =>
      have hr := fault?_assign s.settings f v
      cases ha : s.settings.assign f v with
      | valid t =>
        rw [ha] at hr
        obtain ⟨settings, hs⟩ := ih { s with settings := t }
        exact ⟨settings, by simp [assignAll, refusal?, hf, ← hr, Checked.fault?, ha, hs]⟩
      | invalid issues =>
        rw [ha] at hr
        exact ⟨s.settings, by simp [assignAll, refusal?, hf, ← hr, Checked.fault?, ha]⟩

/-- Saved settings are taken back whole: no field refuses what it held. -/
theorem restore_eq (s : Session) (settings : Settings) :
    s.restore settings = ({ s with settings := settings }, none) := by
  simp only [restore, entries, Field.all, List.map_cons, List.map_nil, assignAll,
    Field.ofName?_name, Settings.value, assign, readLevel_name, readFlag_bool, Checked.map,
    Checked.within]

theorem push_of_refused {values : List (String × Value)} {fault : Fault}
    (h : values.findSome? refusal? = some fault) (s : Session) : s.push values = (s, .error fault) := by
  obtain ⟨settings, ha⟩ := s.exists_assignAll values
  simp only [push, ha, h, restore_eq, Option.getD_none]

theorem exists_push {values : List (String × Value)} (h : values.findSome? refusal? = none)
    (s : Session) :
    ∃ settings, s.push values =
      ({ s with settings := settings, saved := s.settings :: s.saved }, .ok .done) := by
  obtain ⟨settings, ha⟩ := s.exists_assignAll values
  exact ⟨settings, by simp only [push, ha, h]⟩

theorem push_eq_error_iff {s : Session} {values : List (String × Value)} {fault : Fault} :
    (s.push values).2 = .error fault ↔ values.findSome? refusal? = some fault := by
  cases h : values.findSome? refusal? with
  | none =>
    obtain ⟨settings, hp⟩ := exists_push h s
    simp [hp]
  | some first => simp [push_of_refused h, eq_comm]

theorem pop_of_saved {s : Session} {settings : Settings} {saved : List Settings}
    (h : s.saved = settings :: saved) :
    s.pop = ({ s with settings := settings, saved := saved }, .ok .done) := by
  simp only [pop, h, restore_eq]

/-- What a step can do to a session. Only the fields that are written here change. -/
inductive Move (s : Session) : Step → Outcome → Prop
  | failed (x : Step) (fault : Fault) (h : x ≠ .pop) : Move s x (s, .error fault)
  | assigned (name : AttributeName) (v : Value) (settings : Settings) :
    Move s (.set name v) ({ s with settings := settings }, .ok .done)
  | begun (values : List (String × Value)) (settings : Settings) :
    Move s (.push values)
      ({ s with settings := settings, saved := s.settings :: s.saved }, .ok .done)
  | unmatched (h : s.saved = []) : Move s .pop (s, .error .noOverride)
  | ended (settings : Settings) (saved : List Settings) (h : s.saved = settings :: saved) :
    Move s .pop ({ s with settings := settings, saved := saved }, .ok .done)
  | configured (level label : Option String) (t : Threshold)
    (h : threshold? s.settings level = .ok t) :
    Move s (.configure level label)
      ({ s with loggers := s.loggers.set Loggers.topName t, handlers := attach label s.handlers },
        .ok (.configured Loggers.topName))
  | named (name : Option String) (effective : Level) :
    Move s (.getLogger name)
      ({ s with loggers := s.loggers.ask (Loggers.fullName name) },
        .ok (.logger (Loggers.fullName name) effective))
  | evaluated (document path : Value) :
    Move s (.evaluate document path) (s, .ok (.evaluated (s.evaluate document path)))

theorem move_step (s : Session) (x : Step) : Move s x (s.step x) := by
  cases x with
  | set name v =>
    simp only [step, set]
    cases s.settings.assignNamed name v with
    | ok settings => exact .assigned name v settings
    | error fault => exact .failed _ fault nofun
  | push values =>
    simp only [step]
    cases h : values.findSome? refusal? with
    | some fault =>
      rw [push_of_refused h]
      exact .failed _ fault nofun
    | none =>
      obtain ⟨settings, hp⟩ := exists_push h s
      rw [hp]
      exact .begun values settings
  | pop =>
    simp only [step]
    cases h : s.saved with
    | nil =>
      simp only [pop, h]
      exact .unmatched h
    | cons settings saved =>
      rw [pop_of_saved h]
      exact .ended settings saved h
  | configure level label =>
    simp only [step, configure]
    cases h : threshold? s.settings level with
    | ok t => exact .configured level label t h
    | error fault => exact .failed _ fault nofun
  | getLogger name => exact .named name _
  | evaluate document path => exact .evaluated document path

@[simp] theorem after_nil (s : Session) : s.after [] = s := rfl

@[simp] theorem after_cons (s : Session) (x : Step) (rest : List Step) :
    s.after (x :: rest) = (s.step x).1.after rest := by
  simp only [after, run, List.getLast?_cons]
  cases ((s.step x).1.run rest).getLast? <;> rfl

theorem step_of_error {s : Session} {x : Step} {fault : Fault} (h : (s.step x).2 = .error fault) :
    (s.step x).1 = s := by
  have hm := s.move_step x
  generalize s.step x = outcome at h hm
  cases hm with
  | failed => rfl
  | unmatched => rfl
  | _ => cases h

theorem noFieldFault_eq (name : String) :
    noFieldFault name =
      if name = "model_extra" ∨ name = "model_fields_set" then .notAssignable name
      else .invalid [⟨[name], .fieldUnknown⟩] := by
  simp [noFieldFault, computedNames]

theorem assignNamed_eq_error_iff {settings : Settings} {name : AttributeName} {v : Value}
    {fault : Fault} :
    settings.assignNamed name v = .error fault ↔
      (∃ f : Field, f.name = name.text ∧ f.refusal? v = some fault) ∨
        (∀ f : Field, f.name ≠ name.text) ∧ fault = noFieldFault name.text := by
  simp only [assignNamed, ne_eq, ← Field.ofName?_eq_some_iff]
  cases hf : Field.ofName? name.text with
  | none => simp [eq_comm]
  | some f =>
    have hr := fault?_assign settings f v
    cases ha : settings.assign f v with
    | valid t => simp [← hr, ha, Checked.fault?]
    | invalid issues => simp [← hr, ha, Checked.fault?]

theorem set_eq_error_iff {s : Session} {name : AttributeName} {v : Value} {fault : Fault} :
    (s.set name v).2 = .error fault ↔ s.settings.assignNamed name v = .error fault := by
  unfold set
  cases s.settings.assignNamed name v <;> simp

theorem threshold?_eq_error_iff {settings : Settings} {level : Option String} {fault : Fault} :
    threshold? settings level = .error fault ↔
      ∃ name, level = some name ∧ name ≠ "" ∧ Threshold.ofName? name = none ∧
        fault = .unknownLevel name := by
  cases level with
  | none => simp [threshold?]
  | some name =>
    by_cases hn : name = ""
    · simp [threshold?, hn]
    · cases ht : Threshold.ofName? name <;> simp [threshold?, hn, ht, eq_comm]

theorem configure_eq_error_iff {s : Session} {level label : Option String} {fault : Fault} :
    (s.configure level label).2 = .error fault ↔ threshold? s.settings level = .error fault := by
  unfold configure
  cases threshold? s.settings level <;> simp

/-- Steps that fail change nothing, in any session. Setting fails on a value that the field of the name
does not take and on a name without a field, with its own fault for a name of what is computed. An
override fails on an entry that no field takes, with the fault of the first such entry, and a
configuration on a name that is not empty and is no level's. -/
theorem step_error_unchanged (s : Session) :
    (∀ x fault, (s.step x).2 = .error fault → (s.step x).1 = s) ∧
    (∀ name v fault, (s.step (.set name v)).2 = .error fault ↔
      (∃ f : Field, f.name = name.text ∧ f.refusal? v = some fault) ∨
        (∀ f : Field, f.name ≠ name.text) ∧ fault =
          if name.text = "model_extra" ∨ name.text = "model_fields_set" then
            .notAssignable name.text
          else .invalid [⟨[name.text], .fieldUnknown⟩]) ∧
    (∀ values fault, (s.step (.push values)).2 = .error fault ↔
      ∃ front e back, values = front ++ e :: back ∧ refusal? e = some fault ∧
        ∀ a ∈ front, refusal? a = none) ∧
    ∀ level label fault, (s.step (.configure level label)).2 = .error fault ↔
      ∃ name, level = some name ∧ name ≠ "" ∧ Threshold.ofName? name = none ∧
        fault = .unknownLevel name := by
  refine ⟨fun x fault h => step_of_error h, ?_, ?_, ?_⟩
  · intro name v fault
    rw [← noFieldFault_eq]
    exact set_eq_error_iff.trans assignNamed_eq_error_iff
  · intro values fault
    rw [← List.findSome?_eq_some_iff]
    exact push_eq_error_iff
  · intro level label fault
    exact configure_eq_error_iff.trans threshold?_eq_error_iff

example :
    let s := (initial.step (.push [("log_level", .text "ERROR")])).1
    s.step (.push [("trace_segments", .text "Yes"), ("log_level", .text "loud"), ("x", .null)]) =
      (s, .error (.invalid [⟨["log_level"], .notAChoice⟩])) := by
  decide +kernel

end Session
end PathQuery
