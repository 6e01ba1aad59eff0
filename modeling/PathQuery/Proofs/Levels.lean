import Mathlib
import PathQuery.Proofs.Search
import PathQuery.Proofs.Traversal

/-!
# Recursive descent by levels

The values below a document by a number of wildcards are one level of it. Recursive descent finds
what stands under the key on all levels: it goes depth first where the levels go breadth first, so
the two agree up to order. No level is left below the depth of the document.
-/
namespace PathQuery

theorem flatMap_flatMap_comm {α β γ : Type} (xs : List α) (ys : List β) (f : α → β → List γ) :
    (xs.flatMap fun a => ys.flatMap fun b => f a b).Perm
      (ys.flatMap fun b => xs.flatMap fun a => f a b) := by
  rw [← Multiset.coe_eq_coe]
  simp only [← Multiset.coe_bind]
  exact Multiset.bind_bind _ _

namespace Value

mutual

/-- The length of the longest location in a value. -/
def depth : Value → Nat
  | list items => depthAll items
  | tuple items => depthAll items
  | object entries => depthEntries entries
  | _ => 0

def depthAll : List Value → Nat
  | [] => 0
  | v :: rest => max (v.depth + 1) (depthAll rest)

def depthEntries : List (String × Value) → Nat
  | [] => 0
  | (_, v) :: rest => max (v.depth + 1) (depthEntries rest)

end

theorem depthEntries_eq (entries : List (String × Value)) :
    depthEntries entries = depthAll (entries.map Prod.snd) := by
  induction entries with
  | nil => rfl
  | cons e rest ih => rw [depthEntries, ih, List.map_cons, depthAll]

theorem depth_eq (v : Value) : v.depth = depthAll v.children := by
  cases v <;> simp [depth, children, depthAll, depthEntries_eq]

theorem depth_lt_depthAll {v : Value} {items : List Value} (h : v ∈ items) :
    v.depth < depthAll items := by
  induction items with
  | nil => exact absurd h (by simp)
  | cons w rest ih =>
    rw [depthAll]
    rcases List.mem_cons.mp h with rfl | h
    · omega
    · have := ih h
      omega

theorem depth_lt_of_mem_children {v c : Value} (h : c ∈ v.children) : c.depth < v.depth := by
  rw [v.depth_eq]
  exact depth_lt_depthAll h

theorem children_eq_nil_of_depth {v : Value} (h : v.depth = 0) : v.children = [] := by
  rw [List.eq_nil_iff_forall_not_mem]
  intro c hc
  have := depth_lt_of_mem_children hc
  omega

end Value

namespace Evaluation

/-- What stands under a key a number of levels below a value. -/
def level (key : String) (n : Nat) (v : Value) : List Value :=
  sweep (List.replicate n .wildcard ++ [.key key]) [v]

theorem level_zero (key : String) (v : Value) : level key 0 v = (v.get? key).toList := by
  simp [level, sweep, Segment.select]

theorem level_succ (key : String) (n : Nat) (v : Value) :
    level key (n + 1) v = v.children.flatMap (level key n) := by
  rw [level, List.replicate_succ, List.cons_append, sweep_cons, List.flatMap_singleton,
    sweep_eq_flatMap]
  rfl

/-- A value's own entry is level zero, and the levels of its children are one level higher each. -/
theorem flatMap_level_succ (key : String) (bound : Nat) (v : Value) :
    ((List.range (bound + 1)).flatMap fun n => level key n v) =
      (v.get? key).toList ++
        (List.range bound).flatMap fun n => v.children.flatMap (level key n) := by
  rw [List.range_succ_eq_map, List.flatMap_cons, List.flatMap_map, level_zero]
  simp only [level_succ]

theorem under_perm_levels (key : String) {bound : Nat} {v : Value} (h : v.depth ≤ bound) :
    (v.under key).Perm ((List.range (bound + 1)).flatMap fun n => level key n v) := by
  induction bound generalizing v with
  | zero =>
    have hnone : v.children = [] := Value.children_eq_nil_of_depth (by omega)
    rw [Value.under_eq, flatMap_level_succ, hnone]
    rfl
  | succ bound ih =>
    have hchildren : ∀ c ∈ v.children, (c.under key).Perm
        ((List.range (bound + 1)).flatMap fun n => level key n c) := by
      intro c hc
      have := Value.depth_lt_of_mem_children hc
      exact ih (by omega)
    rw [Value.under_eq, flatMap_level_succ]
    apply List.Perm.append_left
    exact (List.Perm.flatMap_left _ hchildren).trans (flatMap_flatMap_comm _ _ _)

/-- Recursive descent finds, up to order, what the key finds behind each number of wildcards up to
the depth of the document; beyond that there is nothing more to find. -/
theorem search_perm_levels (trace : Bool) (document : Value) (key : String) (beyond : Nat) :
    (document.search key).Perm ((List.range (document.depth + beyond + 1)).flatMap fun n =>
      (traverse trace (List.replicate n .wildcard ++ [.key key]) [document]).value) := by
  simp only [traverse_value, Value.search_eq_under]
  exact under_perm_levels key (Nat.le_add_right _ _)

end Evaluation
end PathQuery
