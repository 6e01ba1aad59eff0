import Mathlib
import PathQuery.Proofs.Steps

/-!
# Overrides

Overrides nest. Through a run that ends what it begins, the settings that an open override saved stay
where they are, whatever is set, configured, evaluated or fails in between; ending the override then
brings them back and touches nothing else.
-/
namespace PathQuery.Session

/-- A session with `n` overrides begun on top of those in `base`. -/
def Nested (base : List Settings) (n : Nat) (s : Session) : Prop :=
  ∃ inner, s.saved = inner ++ base ∧ inner.length = n

theorem openAfter?_error {n : Nat} {x : Step} (h : x ≠ .pop) (fault : Fault) :
    openAfter? n x (.error fault) = some n := by
  cases x with
  | pop => exact absurd rfl h
  | _ => rfl

/-- A run may only end what it began: what it has saved is not empty then. -/
theorem exists_cons_of_openAfter?_pop {inner : List Settings} {m : Nat} {result : Except Fault Answer}
    (h : openAfter? inner.length .pop result = some m) :
    ∃ settings rest, inner = settings :: rest ∧ rest.length = m := by
  cases inner with
  | nil => cases h
  | cons settings rest => exact ⟨settings, rest, rfl, by simpa [openAfter?] using h⟩

theorem Nested.step {base : List Settings} {n m : Nat} {s : Session} (h : Nested base n s) {x : Step}
    (hm : openAfter? n x (s.step x).2 = some m) : Nested base m (s.step x).1 := by
  obtain ⟨inner, hs, rfl⟩ := h
  have hmove := s.move_step x
  generalize s.step x = outcome at hm hmove
  cases hmove with
  | failed x fault hx =>
    rw [openAfter?_error hx] at hm
    cases hm
    exact ⟨inner, hs, rfl⟩
  | unmatched hnil =>
    -- The run has saved settings of its own to go back to, so a pop cannot fail here.
    obtain ⟨settings, rest, rfl, -⟩ := exists_cons_of_openAfter?_pop hm
    cases hs.symm.trans hnil
  | begun values settings =>
    cases hm
    exact ⟨s.settings :: inner, by simp [hs], rfl⟩
  | ended settings saved hsaved =>
    obtain ⟨top, rest, rfl, rfl⟩ := exists_cons_of_openAfter?_pop hm
    obtain ⟨-, rfl⟩ := List.cons.inj (hsaved.symm.trans hs)
    exact ⟨rest, rfl, rfl⟩
  | _ =>
    cases hm
    exact ⟨inner, hs, rfl⟩

theorem Nested.after {base : List Settings} {n m : Nat} {s : Session} (h : Nested base n s)
    {steps : List Step} (hm : s.openThrough? n steps = some m) : Nested base m (s.after steps) := by
  induction steps generalizing s n with
  | nil =>
    cases hm
    exact h
  | cons x rest ih =>
    obtain ⟨k, hk, hrest⟩ := Option.bind_eq_some_iff.mp hm
    rw [after_cons]
    exact ih (h.step hk) hrest

theorem Balanced.saved_after {s : Session} {steps : List Step} (h : s.Balanced steps) :
    (s.after steps).saved = s.saved := by
  have hbase : Nested s.saved 0 s := ⟨[], rfl, rfl⟩
  obtain ⟨inner, hs, hl⟩ := hbase.after h
  rw [hs, List.length_eq_zero_iff.mp hl, List.nil_append]

/-- The override that a push begins is ended by the pop behind a balanced run: the pop succeeds, the
settings and the overrides around it are those before the push, and nothing else is different from
before the pop. -/
theorem pop_after_balanced {s : Session} {values : List (String × Value)} {answer : Answer}
    (hpush : (s.step (.push values)).2 = .ok answer) {steps : List Step}
    (hbalanced : (s.step (.push values)).1.Balanced steps) :
    let inside := (s.step (.push values)).1.after steps
    inside.step .pop = ({ inside with settings := s.settings, saved := s.saved }, .ok .done) := by
  intro inside
  have hsaved : inside.saved = (s.step (.push values)).1.saved := hbalanced.saved_after
  have hmove := s.move_step (.push values)
  generalize s.step (.push values) = outcome at hpush hsaved hmove
  cases hmove with
  | failed => cases hpush
  | begun values settings => exact pop_of_saved hsaved

theorem pop_after_balanced_nested :
    let s := (initial.step (.push [("log_level", .text "ERROR")])).1
    let values : List (String × Value) := [("trace_segments", .text "Yes")]
    let steps : List Step := [.set ⟨"log_level", by decide⟩ (.text "DEBUG"),
      .push [("rich_tracebacks", .int 1)], .push [("trace_segments", .text "no"),
      ("log_level", .text "loud")], .set ⟨"model_extra", by decide⟩ .null,
      .configure (some "loud") none, .configure none (some "console"), .pop,
      .evaluate (.object []) (.text "$.a")]
    let inside := (s.step (.push values)).1.after steps
    (s.step (.push values)).2 = .ok .done ∧ (s.step (.push values)).1.Balanced steps ∧
      inside.settings ≠ s.settings ∧
      inside.step .pop = ({ inside with settings := s.settings, saved := s.saved }, .ok .done) := by
  intro s values steps inside
  have hpush : (s.step (.push values)).2 = .ok .done := by decide +kernel
  have hbalanced : (s.step (.push values)).1.Balanced steps := by decide +kernel
  exact ⟨hpush, hbalanced, by decide +kernel, pop_after_balanced hpush hbalanced⟩

end PathQuery.Session
