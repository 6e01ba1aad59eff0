import Mathlib
import PathQuery.Proofs.Search

/-!
# The search turn by turn

A search keeps a stack of pending values. Every turn takes the value on top, adds its own entry
under the key to what is found and puts its children on the stack, the first of them on top. What is
found together with all that the pending values still hold is the same before and after a turn, and
one value less is left to be visited. So the search of a document ends after one turn for each value
in it, with what the recursion on the document collects, in its order.
-/
namespace PathQuery.Value

theorem sizeAll_reverse (items : List Value) : sizeAll items.reverse = sizeAll items := by
  induction items with
  | nil => rfl
  | cons v rest ih =>
    rw [List.reverse_cons, sizeAll_append, ih]
    simp only [sizeAll]
    omega

/-- A search under way: the pending values, the next one last, and what is found so far. -/
structure Search where
  stack : List Value
  found : List Value

namespace Search

def start (v : Value) : Search := ⟨[v], []⟩

/-- The next turn; there is none when nothing is pending. -/
def turn? (key : String) (s : Search) : Option Search :=
  s.stack.getLast?.map fun v =>
    ⟨s.stack.dropLast ++ v.children.reverse, s.found ++ (v.get? key).toList⟩

inductive Run (key : String) : ℕ → Search → Search → Prop
  | zero (s : Search) : Run key 0 s s
  | succ {n : ℕ} {s t u : Search} (first : s.turn? key = some t) (rest : Run key n t u) :
      Run key (n + 1) s u

/-- What is found once every pending value is searched, the one on top first. -/
def answer (key : String) (s : Search) : List Value :=
  s.found ++ s.stack.reverse.flatMap (under key)

/-- The number of values that are left to be visited. -/
def work (s : Search) : ℕ := sizeAll s.stack

variable {key : String} {s t : Search} {n : ℕ}

theorem turn?_eq_some_iff :
    s.turn? key = some t ↔ ∃ below v, s.stack = below ++ [v] ∧
      t = ⟨below ++ v.children.reverse, s.found ++ (v.get? key).toList⟩ := by
  unfold turn?
  constructor
  · intro h
    obtain ⟨v, hv, rfl⟩ := Option.map_eq_some_iff.mp h
    have hstack := List.dropLast_append_getLast? v hv
    exact ⟨s.stack.dropLast, v, hstack.symm, rfl⟩
  · rintro ⟨below, v, hstack, rfl⟩
    simp [hstack]

theorem exists_turn? (key : String) (h : s.stack ≠ []) : ∃ t, s.turn? key = some t := by
  obtain ⟨below, v, hstack⟩ := s.stack.eq_nil_or_concat.resolve_left h
  exact ⟨_, turn?_eq_some_iff.mpr ⟨below, v, by rw [hstack, List.concat_eq_append], rfl⟩⟩

theorem answer_of_turn? (h : s.turn? key = some t) : t.answer key = s.answer key := by
  obtain ⟨below, v, hstack, rfl⟩ := turn?_eq_some_iff.mp h
  calc answer key ⟨below ++ v.children.reverse, s.found ++ (v.get? key).toList⟩
      = s.found ++ ((v.get? key).toList ++ v.children.flatMap (under key)) ++
          below.reverse.flatMap (under key) := by
        simp only [answer, List.reverse_append, List.reverse_reverse, List.flatMap_append,
          List.append_assoc]
    _ = s.found ++ v.under key ++ below.reverse.flatMap (under key) := by rw [← under_eq]
    _ = answer key s := by
        simp only [answer, hstack, List.reverse_append, List.reverse_singleton,
          List.singleton_append, List.flatMap_cons, List.append_assoc]

theorem work_of_turn? (h : s.turn? key = some t) : t.work + 1 = s.work := by
  obtain ⟨below, v, hstack, rfl⟩ := turn?_eq_some_iff.mp h
  have hsize := size_eq v
  simp only [work, hstack, sizeAll_append, sizeAll_reverse, sizeAll]
  omega

theorem Run.answer_eq (h : Run key n s t) : t.answer key = s.answer key := by
  induction h with
  | zero s => rfl
  | succ first rest ih => exact ih.trans (answer_of_turn? first)

theorem Run.work_eq (h : Run key n s t) : t.work + n = s.work := by
  induction h with
  | zero s => rfl
  | succ first rest ih =>
    have hturn := work_of_turn? first
    omega

/-- Every search can be run until nothing is pending. -/
theorem exists_run (key : String) (s : Search) : ∃ n t, Run key n s t ∧ t.stack = [] := by
  induction hwork : s.work generalizing s with
  | zero =>
    refine ⟨0, s, .zero s, ?_⟩
    by_contra hne
    obtain ⟨t, ht⟩ := exists_turn? key hne
    have hturn := work_of_turn? ht
    omega
  | succ work ih =>
    by_cases hstack : s.stack = []
    · exact ⟨0, s, .zero s, hstack⟩
    · obtain ⟨t, ht⟩ := exists_turn? key hstack
      have hturn := work_of_turn? ht
      obtain ⟨n, u, hrun, hend⟩ := ih t (by omega)
      exact ⟨n + 1, u, .succ ht hrun, hend⟩

/-- How a search of a document ends, whenever it does. -/
theorem Run.ended {v : Value} (h : Run key n (start v) s) (hend : s.stack = []) :
    n = v.size ∧ s = ⟨[], v.search key⟩ := by
  obtain ⟨stack, found⟩ := s
  obtain rfl : stack = [] := hend
  have hwork := h.work_eq
  have hanswer := h.answer_eq
  simp only [work, start, sizeAll] at hwork
  simp only [answer, start, List.reverse_nil, List.flatMap_nil, List.append_nil, List.nil_append,
    List.reverse_singleton, List.flatMap_singleton] at hanswer
  exact ⟨by omega, by rw [hanswer, search_eq_under]⟩

end Search

/-- The search of a document ends, in every run after one turn for each value of the document, and
finds what the recursion collects: first the document's own entry under the key, then what is found
in each of its children in order. -/
theorem search_preorder (key : String) (v : Value) :
    (∀ n s, Search.Run key n (.start v) s ∧ s.stack = [] ↔
      n = v.size ∧ s = ⟨[], v.search key⟩) ∧
    v.search key = v.under key ∧
    v.under key = (v.get? key).toList ++ v.children.flatMap (under key) := by
  refine ⟨fun n s => ⟨fun h => h.1.ended h.2, ?_⟩, search_eq_under key v, under_eq key v⟩
  rintro ⟨rfl, rfl⟩
  obtain ⟨n, s, hrun, hend⟩ := Search.exists_run key (.start v)
  obtain ⟨rfl, rfl⟩ := hrun.ended hend
  exact ⟨hrun, rfl⟩

/-- A value that is found is itself searched, right after the values found above it. -/
example :
    let inner := object [("b", null), ("a", int 1)]
    (object [("a", inner), ("c", list [object [("a", int 2)]])]).search "a" =
      [inner, int 1, int 2] := by
  decide +kernel

end PathQuery.Value
