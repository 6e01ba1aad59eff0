import Mathlib
import PathQuery.Proofs.WrittenConditions

/-!
# Filters for equality and inequality

Two filters that ask whether a property equals a text and whether it differs read the same property
and the same literal, whatever the text holds. So each object of a sequence is kept by one of them
and not by the other; a property that is missing or null is never equal. Members that are no objects
are kept by both.
-/
namespace PathQuery

theorem Literal.equals_of_absent {actual : Option Value}
    (h : actual = none ∨ actual = some .null) (l : Literal) : l.equals actual = false := by
  rcases h with rfl | rfl
  · cases l <;> rfl
  · cases l <;> rfl

namespace Condition

theorem admits_of_not_isObject (expression : String) {item : Value}
    (ho : item.isObject = false) : (admits expression item).value = true := by
  cases hread : read expression with
  | ok c => simp [admits_of_read hread, ho]
  | error fault => simp [admits_of_read_error hread]

/-- The two filters read one literal, so an object that one keeps is turned away by the other. -/
theorem admits_unequal_eq_not {property : String} (hp : IsWord property) (literal : String)
    {item : Value} (ho : item.isObject = true) :
    (admits (written property .unequal literal) item).value =
      !(admits (written property .equal literal) item).value := by
  rw [admits_written_object hp .unequal literal ho, admits_written_object hp .equal literal ho]
  rfl

theorem admits_equal_of_absent {property : String} (hp : IsWord property) (literal : String)
    {item : Value} (ho : item.isObject = true)
    (h : item.get? property = none ∨ item.get? property = some .null) :
    (admits (written property .equal literal) item).value = false := by
  rw [admits_written_object hp .equal literal ho, Literal.satisfies, Literal.equals_of_absent h]

/-- What a filter for a comparison of a property with a literal keeps of a sequence. -/
def selected (property : String) (o : Comparison) (literal : String) (v : Value) : List Value :=
  ((Segment.filter (written property o literal)).select v).value

theorem selected_eq_filter (property : String) (o : Comparison) (literal : String) (v : Value) :
    selected property o literal v =
      v.members.filter fun item => (admits (written property o literal) item).value :=
  Logged.filter_value _ _

theorem selected_objects_perm {property : String} (hp : IsWord property) (literal : String)
    (v : Value) :
    ((selected property .equal literal v).filter Value.isObject ++
      (selected property .unequal literal v).filter Value.isObject).Perm
        (v.members.filter Value.isObject) := by
  let equal := fun item => (admits (written property .equal literal) item).value
  have hequal : (selected property .equal literal v).filter Value.isObject =
      (v.members.filter Value.isObject).filter equal := by
    rw [selected_eq_filter, List.filter_filter, List.filter_filter]
    exact List.filter_congr fun item _ => Bool.and_comm _ _
  have hunequal : (selected property .unequal literal v).filter Value.isObject =
      (v.members.filter Value.isObject).filter fun item => !equal item := by
    rw [selected_eq_filter, List.filter_filter, List.filter_filter]
    refine List.filter_congr fun item _ => ?_
    cases ho : item.isObject with
    | true => rw [admits_unequal_eq_not hp literal ho, Bool.and_comm]
    | false => rw [Bool.false_and, Bool.and_false]
  rw [hequal, hunequal]
  exact List.filter_append_perm equal _

/-- The filters for equality and inequality with a text share the objects of a sequence between
them: each member is tried on its own and what is kept stays in order, an object is kept by exactly
one of the two, by the second when the property is missing or null, and every other member by
both. -/
theorem equality_partition {property : String} (hp : IsWord property) (literal : String)
    (v : Value) :
    let equal := fun item => (admits (written property .equal literal) item).value
    let unequal := fun item => (admits (written property .unequal literal) item).value
    selected property .equal literal v = v.members.filter equal ∧
    selected property .unequal literal v = v.members.filter unequal ∧
    (∀ item, item.isObject = true → unequal item = !equal item) ∧
    (∀ item, item.isObject = true →
      item.get? property = none ∨ item.get? property = some .null →
      equal item = false ∧ unequal item = true) ∧
    (∀ item, item.isObject = false → equal item = true ∧ unequal item = true) ∧
    ((selected property .equal literal v).filter Value.isObject ++
      (selected property .unequal literal v).filter Value.isObject).Perm
        (v.members.filter Value.isObject) := by
  intro equal unequal
  refine ⟨selected_eq_filter _ _ _ v, selected_eq_filter _ _ _ v, ?_, ?_, ?_,
    selected_objects_perm hp literal v⟩
  · exact fun item ho => admits_unequal_eq_not hp literal ho
  · intro item ho habsent
    have hequal : equal item = false := admits_equal_of_absent hp literal ho habsent
    have hunequal : unequal item = !equal item := admits_unequal_eq_not hp literal ho
    exact ⟨hequal, by rw [hunequal, hequal]; rfl⟩
  · exact fun item ho => ⟨admits_of_not_isObject _ ho, admits_of_not_isObject _ ho⟩

/-- A text that looks like another comparison is the literal of both filters. -/
theorem equality_partition_comparison :
    let literal := "'x) @.m != 1'"
    let items := [Value.object [("n", .text "x) @.m != 1"), ("m", .int 1)], .int 3,
      .object [("n", .text "x"), ("m", .int 1)], .object [("n", .null)]]
    IsWord "n" ∧ selected "n" .equal literal (.list items) = [items[0], items[1]] ∧
    selected "n" .unequal literal (.list items) = [items[1], items[2], items[3]] ∧
    ((selected "n" .equal literal (.list items)).filter Value.isObject ++
      (selected "n" .unequal literal (.list items)).filter Value.isObject).Perm
        (items.filter Value.isObject) := by
  intro literal items
  have hp : IsWord "n" := ⟨by simp, by simp [isWordChar]⟩
  obtain ⟨-, -, -, -, -, hperm⟩ := equality_partition hp literal (.list items)
  have hequal : selected "n" .equal literal (.list items) = [items[0], items[1]] := by
    decide +kernel
  have hunequal : selected "n" .unequal literal (.list items) =
      [items[1], items[2], items[3]] := by
    decide +kernel
  exact ⟨hp, hequal, hunequal, hperm⟩

end Condition
end PathQuery
