import Mathlib
import PathQuery.Proofs.Admission
import PathQuery.Proofs.ComparisonOrder
import PathQuery.Proofs.Outcome
import PathQuery.Proofs.Search

/-!
# Lists and tuples

Every operation treats a list and a tuple with the same members alike: evaluation commutes with
turning all tuples of a document into lists, down to the records it makes.
-/
namespace PathQuery
namespace Value

mutual

/-- The value with a list in place of every tuple, at every depth. -/
def listed : Value → Value
  | list items => list (listedAll items)
  | tuple items => list (listedAll items)
  | object entries => object (listedEntries entries)
  | v => v

def listedAll : List Value → List Value
  | [] => []
  | v :: rest => v.listed :: listedAll rest

def listedEntries : List (String × Value) → List (String × Value)
  | [] => []
  | (key, v) :: rest => (key, v.listed) :: listedEntries rest

end

theorem listedAll_eq (items : List Value) : listedAll items = items.map listed := by
  induction items with
  | nil => rfl
  | cons v rest ih => rw [listedAll, ih, List.map_cons]

theorem listedEntries_eq (entries : List (String × Value)) :
    listedEntries entries = entries.map fun e => (e.1, e.2.listed) := by
  induction entries with
  | nil => rfl
  | cons e rest ih => rw [listedEntries, ih, List.map_cons]

theorem isObject_listed (v : Value) : v.listed.isObject = v.isObject := by
  cases v <;> simp [listed, isObject]

theorem members_listed (v : Value) : v.listed.members = v.members.map listed := by
  cases v <;> simp [listed, members, listedAll_eq]

theorem children_listed (v : Value) : v.listed.children = v.children.map listed := by
  cases v <;> simp [listed, children, listedAll_eq, listedEntries_eq]

theorem lookup_map_snd (key : String) (f : Value → Value) (entries : List (String × Value)) :
    (entries.map fun e => (e.1, f e.2)).lookup key = (entries.lookup key).map f := by
  induction entries with
  | nil => rfl
  | cons e rest ih =>
    rw [List.map_cons, List.lookup_cons, List.lookup_cons, ih]
    cases key == e.1 <;> rfl

theorem get?_listed (v : Value) (key : String) : v.listed.get? key = (v.get? key).map listed := by
  cases v with
  | object entries => simp only [listed, get?, listedEntries_eq, lookup_map_snd]
  | _ => simp [listed, get?]

theorem under_listed (key : String) (v : Value) :
    v.listed.under key = (v.under key).map listed := by
  induction v using childrenInduction with
  | step v ih =>
    have hbelow : (v.children.map listed).flatMap (under key) =
        (v.children.flatMap (under key)).map listed := by
      rw [List.flatMap_map, List.map_flatMap]
      exact List.flatMap_congr ih
    rw [under_eq, under_eq, get?_listed, children_listed, hbelow, List.map_append,
      Option.toList_map]

theorem search_listed (v : Value) (key : String) :
    v.listed.search key = (v.search key).map listed := by
  rw [search_eq_under, search_eq_under, under_listed]

theorem slice_map (start stop : Option Int) (f : Value → Value) (items : List Value) :
    slice start stop (items.map f) = (slice start stop items).map f := by
  simp [slice]

end Value

theorem Literal.satisfies_listed (c : Comparison) (l : Literal) (actual : Option Value) :
    l.satisfies c (actual.map Value.listed) = l.satisfies c actual := by
  cases actual with
  | none => rfl
  | some v =>
    cases v with
    | list items => exact satisfies_congr_container (Or.inl rfl) (Or.inl rfl) c l
    | tuple items => exact satisfies_congr_container (Or.inl rfl) (Or.inl rfl) c l
    | object entries => exact satisfies_congr_container (Or.inr rfl) (Or.inr rfl) c l
    | _ => rfl

theorem Condition.admits_listed (expression : String) (v : Value) :
    admits expression v.listed = admits expression v := by
  apply admits_congr v.isObject_listed
  intro c
  rw [holds, holds, Value.get?_listed, Literal.satisfies_listed]

/-- One step: a segment selects from a listed item what it selects from the item, listed. -/
theorem Segment.select_listed (s : Segment) (v : Value) :
    s.select v.listed = (s.select v).map (List.map Value.listed) := by
  cases s with
  | child name => simp [select, Logged.map, Value.get?_listed, Option.toList_map]
  | recursive name => simp [select, Logged.map, Value.search_listed]
  | wildcard => simp [select, Logged.map, Value.children_listed]
  | index position => simp [select, Logged.map, Value.members_listed, Option.toList_map]
  | slice start stop => simp [select, Logged.map, Value.members_listed, Value.slice_map]
  | key name => simp [select, Logged.map, Value.get?_listed, Option.toList_map]
  | filter expression =>
    rw [select, Value.members_listed]
    exact Logged.filter_map (Condition.admits_listed expression) v.members

namespace Evaluation

theorem traverse_listed (trace : Bool) (segments : List Segment) (current : List Value) :
    traverse trace segments (current.map Value.listed) =
      (traverse trace segments current).map (List.map Value.listed) := by
  induction segments generalizing current with
  | nil => rfl
  | cons s rest ih =>
    have hnext := Logged.flatMap_map s.select_listed current
    simp only [traverse, hnext, Logged.map, List.isEmpty_map, List.length_map]
    split
    · rfl
    · rw [ih, Logged.map]

theorem property_listed (document : Value) (name : String) :
    property document.listed name = (property document name).map (List.map Value.listed) := by
  rw [property, property, Value.get?_listed]
  cases document.get? name <;> rfl

/-- Evaluation commutes with listing: the same fault or the listed results, and the same records. -/
theorem evaluate_listed (trace : Bool) (document : Value) (path : String) :
    evaluate trace document.listed path =
      (evaluate trace document path).map (Except.map (List.map Value.listed)) := by
  rw [evaluate_eq_attemptText, evaluate_eq_attemptText, attemptText_eq, attemptText_eq]
  have hroot : [document.listed] = [document].map Value.listed := rfl
  split_ifs
  · rfl
  · rfl
  · rw [property_listed, Logged.map]
  · rw [hroot, traverse_listed]
    rfl

/-- Tuples and lists are interchangeable: a document with lists in place of its tuples has the same
error under every path, and the same results in the same order with lists in place of tuples. -/
theorem evaluate_tuples_as_lists (trace : Bool) (document : Value) (path : String) :
    let result := evaluate trace document path
    let listedResult := evaluate trace document.listed path
    message? listedResult.value = message? result.value ∧
    results listedResult.value = (results result.value).map Value.listed ∧
    listedResult.records = result.records := by
  intro result listedResult
  have h : listedResult = result.map (Except.map (List.map Value.listed)) :=
    evaluate_listed trace document path
  rw [h, Logged.map]
  cases result.value with
  | ok values => exact ⟨rfl, rfl, rfl⟩
  | error fault => exact ⟨rfl, rfl, rfl⟩

end Evaluation
end PathQuery
