import Mathlib
import PathQuery.Selection

/-!
# Searching and recursing

The search with pending values finds what the recursion on the value collects: the pending values
are the work that is left, and each of them stands for all that is found at or below it.
-/
namespace PathQuery.Value

theorem size_le_sizeAll {v : Value} {items : List Value} (h : v ∈ items) :
    v.size ≤ sizeAll items := by
  induction items with
  | nil => exact absurd h (by simp)
  | cons w rest ih =>
    simp only [sizeAll]
    rcases List.mem_cons.mp h with rfl | h
    · omega
    · have := ih h
      omega

theorem size_lt_of_mem_children {v c : Value} (h : c ∈ v.children) : c.size < v.size := by
  have := size_le_sizeAll h
  rw [size_eq v]
  omega

/-- To prove a property of all values, prove it of each from its children. -/
theorem childrenInduction {motive : Value → Prop}
    (step : ∀ v, (∀ c ∈ v.children, motive c) → motive v) (v : Value) : motive v := by
  induction h : v.size using Nat.strong_induction_on generalizing v with
  | _ n ih =>
    subst h
    exact step v fun c hc => ih c.size (size_lt_of_mem_children hc) c rfl

theorem underAll_eq (key : String) (items : List Value) :
    underAll key items = items.flatMap (under key) := by
  induction items with
  | nil => rfl
  | cons v rest ih => rw [underAll, ih, List.flatMap_cons]

theorem underEntries_eq (key : String) (entries : List (String × Value)) :
    underEntries key entries = (entries.map Prod.snd).flatMap (under key) := by
  induction entries with
  | nil => rfl
  | cons e rest ih => rw [underEntries, ih, List.map_cons, List.flatMap_cons]

/-- What is found at or below a value: its own entry under the key, then all below its children. -/
theorem under_eq (key : String) (v : Value) :
    v.under key = (v.get? key).toList ++ v.children.flatMap (under key) := by
  cases v <;> simp [under, get?, children, underAll_eq, underEntries_eq]

theorem searchFrom_eq (key : String) (pending found : List Value) :
    searchFrom key pending found = found.reverse ++ pending.flatMap (under key) := by
  fun_induction searchFrom key pending found with
  | case1 found => simp
  | case2 v pending found ih =>
    have hown : (v.get? key).toList.reverse = (v.get? key).toList := by
      cases v.get? key <;> rfl
    rw [ih, List.reverse_append, hown, List.flatMap_append, List.flatMap_cons, under_eq key v]
    simp only [List.append_assoc]

theorem search_eq_under (key : String) (v : Value) : v.search key = v.under key := by
  simp [search, searchFrom_eq]

end PathQuery.Value
