import Mathlib
import PathQuery.Proofs.Steps

/-!
# What configurations leave behind

The level of the top logger and its handler are the work of the configurations that succeeded, and
of nothing else: the first installs the handler, every one sets the level, and the console is the
last that was named.
-/
namespace PathQuery.Session

theorem threshold?_eq_ok_iff {settings : Settings} {level label : Option String} {t : Threshold} :
    threshold? settings level = .ok t ↔
      Configuration.Determines ⟨level, label, settings.logLevel⟩ t := by
  cases level with
  | none => simp [threshold?, Configuration.Determines, eq_comm]
  | some name =>
    by_cases hn : name = ""
    · simp [threshold?, Configuration.Determines, hn, eq_comm]
    · cases ht : Threshold.ofName? name <;> simp [threshold?, Configuration.Determines, hn, ht]

/-- The handlers that a history of successful configurations leaves. -/
def installed (history : List Configuration) : List Handler :=
  if history = [] then []
  else [⟨(history.filterMap Configuration.label).getLast?.getD defaultConsole⟩]

theorem attach_installed (history : List Configuration) (c : Configuration) :
    attach c.label (installed history) = installed (history ++ [c]) := by
  have hne : history ++ [c] ≠ [] := by simp
  simp only [installed, hne, if_false, List.filterMap_append]
  by_cases hh : history = []
  · cases hl : c.label <;> simp [hh, attach, hl]
  · cases hl : c.label <;> simp [hh, attach, hl]

/-- The marks that a history of successful configurations leaves on a session. -/
structure Marked (history : List Configuration) (s : Session) : Prop where
  handlers : s.handlers = installed history
  unset : history = [] → s.loggers.own Loggers.topName = .unset
  level : ∀ c ∈ history.getLast?, c.Determines (s.loggers.own Loggers.topName)

theorem marked_initial : Marked [] initial := ⟨rfl, fun _ => rfl, by simp⟩

theorem Marked.of_eq {history : List Configuration} {s t : Session} (h : Marked history s)
    (hh : t.handlers = s.handlers)
    (hl : t.loggers.own Loggers.topName = s.loggers.own Loggers.topName) : Marked history t := by
  obtain ⟨handlers, unset, level⟩ := h
  rw [← hh] at handlers
  rw [← hl] at unset level
  exact ⟨handlers, unset, level⟩

theorem Marked.step {history : List Configuration} {s : Session} (h : Marked history s) (x : Step) :
    Marked (history ++ (s.configuration? x).toList) (s.step x).1 := by
  have hmove := s.move_step x
  unfold configuration?
  generalize s.step x = outcome at hmove
  cases hmove with
  | configured level label t ht =>
    have hd : Configuration.Determines ⟨level, label, s.settings.logLevel⟩ t :=
      threshold?_eq_ok_iff.mp ht
    exact
      { handlers := by simp [h.handlers, ← attach_installed]
        unset := by simp
        level := by simp [Loggers.own_set, hd] }
  | named name effective =>
    simp only [Option.toList_none, List.append_nil]
    exact h.of_eq rfl (Loggers.own_ask _ _ _)
  | _ =>
    simp only [Option.toList_none, List.append_nil]
    exact h.of_eq rfl rfl

theorem Marked.after {history : List Configuration} {s : Session} (h : Marked history s)
    (steps : List Step) : Marked (history ++ s.configurations steps) (s.after steps) := by
  induction steps generalizing history s with
  | nil => simpa [configurations] using h
  | cons x rest ih =>
    rw [after_cons, configurations, ← List.append_assoc]
    exact ih (h.step x)

theorem configure_of_determines {s : Session} {level label : Option String} {t : Threshold}
    (h : Configuration.Determines ⟨level, label, s.settings.logLevel⟩ t) :
    (s.configure level label).2 = .ok (.configured Loggers.topName) := by
  simp only [configure, threshold?_eq_ok_iff.mpr h]

/-- The state of logging after a run, from the configurations that succeeded in it. The settings hold
one of five level names and two booleans, so a configuration that names no level succeeds. There is no
handler before the first success and one after it, with the console that was last named. The top
logger has the level of the last success, by the name it was given or else as the settings then were,
whatever became of them. -/
theorem logging_after_run (steps : List Step) :
    let s := initial.after steps
    let history := initial.configurations steps
    (∃ name ∈ ["DEBUG", "INFO", "WARNING", "ERROR", "CRITICAL"], ∃ tracebacks trace : Bool,
      s.settings.entries = [("log_level", .text name), ("rich_tracebacks", .bool tracebacks),
        ("trace_segments", .bool trace)]) ∧
    (∀ label, (s.step (.configure none label)).2 = .ok (.configured "jsonpath_tester") ∧
      (s.step (.configure (some "") label)).2 = .ok (.configured "jsonpath_tester")) ∧
    (history = [] → s.handlers = [] ∧ s.loggers.own "jsonpath_tester" = .unset) ∧
    (history ≠ [] → s.handlers =
      [⟨(history.filterMap Configuration.label).getLast?.getD "stderr"⟩]) ∧
    ∀ c ∈ history.getLast?, c.Determines (s.loggers.own "jsonpath_tester") := by
  intro s history
  have hmarked : Marked history s := by simpa using marked_initial.after steps
  have hname : s.settings.logLevel.name ∈ ["DEBUG", "INFO", "WARNING", "ERROR", "CRITICAL"] := by
    cases s.settings.logLevel <;> decide
  refine ⟨⟨_, hname, _, _, rfl⟩, ?_, ?_, ?_, hmarked.level⟩
  · intro label
    exact ⟨configure_of_determines rfl, configure_of_determines rfl⟩
  · intro h
    exact ⟨by rw [hmarked.handlers, h]; rfl, hmarked.unset h⟩
  · intro h
    rw [hmarked.handlers, installed, if_neg h]
    rfl

end PathQuery.Session
