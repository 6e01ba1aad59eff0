import Mathlib
import PathQuery.Evaluation

/-!
# Traversal without an early end

Ending at an empty working set saves work and changes no value: traversal is the fold of the
segments over the working set, and acts on each of its members alone. Records are made for filters
and traces only, none of them above the lowest level, and by two loggers.
-/
namespace PathQuery

namespace Logged

@[simp] theorem flatMap_value {α β : Type} (f : α → Logged (List β)) (items : List α) :
    (flatMap f items).value = items.flatMap fun a => (f a).value := by
  simp [flatMap, List.flatMap_map]

theorem mem_flatMap_records {α β : Type} {f : α → Logged (List β)} {items : List α} {r : Record} :
    r ∈ (flatMap f items).records ↔ ∃ a ∈ items, r ∈ (f a).records := by
  simp [flatMap, List.mem_flatMap]

@[simp] theorem filter_value {α : Type} (p : α → Logged Bool) (items : List α) :
    (Logged.filter p items).value = items.filter fun a => (p a).value := by
  simp only [Logged.filter, flatMap_value, map]
  induction items with
  | nil => rfl
  | cons a items ih =>
    rw [List.flatMap_cons, List.filter_cons, ih]
    cases (p a).value <;> rfl

theorem mem_filter_records {α : Type} {p : α → Logged Bool} {items : List α} {r : Record} :
    r ∈ (Logged.filter p items).records ↔ ∃ a ∈ items, r ∈ (p a).records := by
  simp only [Logged.filter, mem_flatMap_records, map]

theorem flatMap_map {α β : Type} {f : α → Logged (List β)} {g : α → α} {h : β → β}
    (hf : ∀ a, f (g a) = (f a).map (List.map h)) (items : List α) :
    flatMap f (items.map g) = (flatMap f items).map (List.map h) := by
  simp [flatMap, map, hf, List.map_map, Function.comp_def, List.map_flatMap, List.flatMap_map]

theorem filter_map {α : Type} {p : α → Logged Bool} {g : α → α} (hp : ∀ a, p (g a) = p a)
    (items : List α) :
    Logged.filter p (items.map g) = (Logged.filter p items).map (List.map g) := by
  apply flatMap_map
  intro a
  rw [hp]
  cases h : (p a).value <;> simp [map, h]

end Logged

/-- A record as evaluations make them: of the lowest level, by the logger of filters or by that of
evaluation. -/
structure Record.IsRoutine (r : Record) : Prop where
  level : r.level = .debug
  logger : r.logger = Condition.loggerName ∨ r.logger = Evaluation.loggerName

theorem Condition.isRoutine_ignored (fault : Fault) : (ignored fault).IsRoutine :=
  ⟨rfl, Or.inl rfl⟩

theorem Condition.isRoutine_failed (expression : Value) : (failed expression).IsRoutine :=
  ⟨rfl, Or.inl rfl⟩

theorem Condition.isRoutine_of_mem_attempt {expression : String} {item : Value} {r : Record}
    (h : r ∈ (attempt expression item).records) : r.IsRoutine := by
  unfold attempt at h
  split at h
  · split at h
    · exact absurd h (by simp)
    · rw [List.mem_singleton.mp h]
      exact isRoutine_ignored _
    · exact absurd h (by simp)
  · exact absurd h (by simp)

theorem Condition.isRoutine_of_mem_admits {expression : String} {item : Value} {r : Record}
    (h : r ∈ (admits expression item).records) : r.IsRoutine := by
  unfold admits recordFailure at h
  split at h
  · exact isRoutine_of_mem_attempt h
  · rcases List.mem_append.mp h with h | h
    · exact isRoutine_of_mem_attempt h
    · rw [List.mem_singleton.mp h]
      exact isRoutine_failed _

theorem Segment.isRoutine_of_mem_select {s : Segment} {item : Value} {r : Record}
    (h : r ∈ (s.select item).records) : r.IsRoutine := by
  cases s with
  | filter expression =>
    obtain ⟨v, -, hr⟩ := Logged.mem_filter_records.mp h
    exact Condition.isRoutine_of_mem_admits hr
  | _ => exact absurd h (by simp [select])

namespace Evaluation

/-- Apply segments one after the other to a working set, also to an empty one. -/
def sweep (segments : List Segment) (current : List Value) : List Value :=
  segments.foldl (fun current s => current.flatMap fun item => (s.select item).value) current

theorem sweep_cons (s : Segment) (rest : List Segment) (current : List Value) :
    sweep (s :: rest) current = sweep rest (current.flatMap fun item => (s.select item).value) :=
  rfl

theorem sweep_append (front back : List Segment) (current : List Value) :
    sweep (front ++ back) current = sweep back (sweep front current) :=
  List.foldl_append

theorem sweep_nil_current (segments : List Segment) : sweep segments [] = [] := by
  induction segments with
  | nil => rfl
  | cons s rest ih => rw [sweep_cons, List.flatMap_nil, ih]

/-- The members of a working set are followed independently of each other. -/
theorem sweep_eq_flatMap (segments : List Segment) (current : List Value) :
    sweep segments current = current.flatMap fun v => sweep segments [v] := by
  induction segments generalizing current with
  | nil => exact (List.flatMap_singleton' current).symm
  | cons s rest ih =>
    calc sweep (s :: rest) current
        = (current.flatMap fun item => (s.select item).value).flatMap fun v => sweep rest [v] := by
          rw [sweep_cons, ih]
      _ = current.flatMap fun item => (s.select item).value.flatMap fun v => sweep rest [v] :=
          List.flatMap_assoc
      _ = current.flatMap fun v => sweep (s :: rest) [v] := by
          simp only [sweep_cons, List.flatMap_singleton, ← ih]

/-- The records of one step: those of the filters, and its trace. -/
def stepRecords (trace : Bool) (s : Segment) (current : List Value) : List Record :=
  let next := Logged.flatMap s.select current
  next.records ++ if trace then [traced s next.value.length] else []

theorem traverse_cons (trace : Bool) (s : Segment) (rest : List Segment) (current : List Value) :
    traverse trace (s :: rest) current =
      let next := current.flatMap fun item => (s.select item).value
      if next.isEmpty then ⟨[], stepRecords trace s current⟩
      else ⟨(traverse trace rest next).value,
        stepRecords trace s current ++ (traverse trace rest next).records⟩ := by
  rw [← Logged.flatMap_value]
  rfl

theorem traverse_value (trace : Bool) (segments : List Segment) (current : List Value) :
    (traverse trace segments current).value = sweep segments current := by
  induction segments generalizing current with
  | nil => rfl
  | cons s rest ih =>
    rw [traverse_cons, sweep_cons]
    dsimp only
    split
    · rename_i h
      rw [List.isEmpty_iff.mp h, sweep_nil_current]
    · exact ih _

theorem isRoutine_traced (s : Segment) (count : Nat) : (traced s count).IsRoutine :=
  ⟨rfl, Or.inr rfl⟩

theorem isRoutine_of_mem_stepRecords {trace : Bool} {s : Segment} {current : List Value} {r : Record}
    (h : r ∈ stepRecords trace s current) : r.IsRoutine := by
  rcases List.mem_append.mp h with h | h
  · obtain ⟨item, -, hi⟩ := Logged.mem_flatMap_records.mp h
    exact Segment.isRoutine_of_mem_select hi
  · cases trace with
    | false => exact absurd h (by simp)
    | true =>
      rw [List.mem_singleton.mp h]
      exact isRoutine_traced _ _

theorem isRoutine_of_mem_traverse {trace : Bool} {segments : List Segment} {current : List Value}
    {r : Record} (h : r ∈ (traverse trace segments current).records) : r.IsRoutine := by
  induction segments generalizing current with
  | nil => exact absurd h (by simp [traverse])
  | cons s rest ih =>
    rw [traverse_cons] at h
    dsimp only at h
    split at h
    · exact isRoutine_of_mem_stepRecords h
    · rcases List.mem_append.mp h with h | h
      · exact isRoutine_of_mem_stepRecords h
      · exact ih h

end Evaluation
end PathQuery
