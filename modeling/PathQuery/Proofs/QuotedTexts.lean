import Mathlib
import PathQuery.Proofs.ComparisonOrder
import PathQuery.Proofs.NumberText
import PathQuery.Proofs.WrittenConditions

/-!
# Equality with a quoted text

A text between apostrophes is the literal itself, whatever quotes, parentheses, operators or blanks
it holds. It equals the same text and, when it reads as a number, every text that reads as this
number once it is trimmed. A text that reads as a number still does when it is trimmed, so every
text equals itself.
-/
namespace PathQuery
open Text

/-- Whether a text counts as a quoted one: as the same text or as an equal number. -/
def SameText (quoted t : String) : Prop :=
  t = quoted ∨ ∃ m n, Number.read? (trim isBlank t.toList) = some m ∧
    Number.read? quoted.toList = some n ∧ m.compare? n = some .eq

instance (quoted t : String) : Decidable (SameText quoted t) :=
  decidable_of_iff (t = quoted ∨ ((Number.read? (trim isBlank t.toList)).bind fun m =>
    (Number.read? quoted.toList).bind fun n => m.compare? n) = some .eq) <| by
      simp only [Option.bind_eq_some_iff, SameText, exists_and_left]

/-- Whether a property of a value is a text that counts as a quoted one. -/
def Value.hasText (property quoted : String) (v : Value) : Bool :=
  match v.get? property with
  | some (.text t) => decide (SameText quoted t)
  | _ => false

theorem Number.compare?_self_of_read? {s : List Char} {n : Number} (h : read? s = some n) :
    n.compare? n = some .eq := by
  obtain ⟨p, hp⟩ := exists_position_of_read? h
  have hself : p.compare p = .eq := (Position.compare_compares p p).eq_eq.mpr rfl
  rw [compare?, hp]
  exact congrArg some hself

theorem Literal.equals_quoted_iff (quoted t : String) :
    (((Number.read? quoted.toList).map number).getD (text quoted)).equals (some (.text t)) = true ↔
      SameText quoted t := by
  cases hread : Number.read? quoted.toList with
  | none => simp [equals, SameText, hread]
  | some n =>
    have hequals : (number n).equals (some (.text t)) = true ↔
        ∃ m, Number.read? (trim isBlank t.toList) = some m ∧ m.compare? n = some .eq := by
      simp only [equals, Option.bind_some, Value.reading?, Option.any_eq_true, beq_iff_eq]
    constructor
    · intro h
      obtain ⟨m, hm, hcompare⟩ := hequals.mp h
      exact Or.inr ⟨m, n, hm, hread, hcompare⟩
    · rintro (rfl | ⟨m, n', hm, hn', hcompare⟩)
      · exact hequals.mpr ⟨n, Number.read?_trim_isBlank hread, Number.compare?_self_of_read? hread⟩
      · rw [hread] at hn'
        cases hn'
        exact hequals.mpr ⟨m, hm, hcompare⟩

namespace Condition

theorem admits_quoted_iff {property quoted t : String} {item : Value} (hp : IsWord property)
    (hq : '\n' ∉ quoted.toList) (ht : item.get? property = some (.text t)) :
    (admits (written property .equal ("'" ++ quoted ++ "'")) item).value = true ↔
      SameText quoted t := by
  have hquote : isQuote apostrophe = true := by decide
  have hliteral : ("'" ++ quoted ++ "'").toList = apostrophe :: (quoted.toList ++ [apostrophe]) := by
    simp [apostrophe]
  rw [admits_written hp _ _ ht, hliteral, literalText_enclosed hquote hquote hq,
    Literal.read_enclosed hquote hquote, String.ofList_toList]
  exact Literal.equals_quoted_iff quoted t

/-- A filter that asks for equality with a quoted text admits the items whose property counts as this
text, and this text itself always does. Behind the root, the filter keeps these items of a list and
no others, in their order. -/
theorem quoted_text_exact {property quoted : String} (hp : IsWord property)
    (hq : '\n' ∉ quoted.toList) :
    let expression := written property .equal ("'" ++ quoted ++ "'")
    (∀ item t, item.get? property = some (.text t) →
      ((admits expression item).value = true ↔
        t = quoted ∨ ∃ m n, Number.read? (trim isBlank t.toList) = some m ∧
          Number.read? quoted.toList = some n ∧ m.compare? n = some .eq)) ∧
    (∀ item, item.get? property = some (.text quoted) →
      (admits expression item).value = true) ∧
    (']' ∉ quoted.toList → ':' ∉ quoted.toList → ∀ (trace : Bool) (items : List Value),
      (∀ item ∈ items, ∃ t, item.get? property = some (.text t)) →
      (Evaluation.evaluate trace (.list items) ("$[" ++ expression ++ "]")).value =
        .ok (items.filter (Value.hasText property quoted))) := by
  intro expression
  refine ⟨fun item t ht => admits_quoted_iff hp hq ht, ?_, ?_⟩
  · intro item ht
    exact (admits_quoted_iff hp hq ht).mpr (Or.inl rfl)
  · intro hbracket hcolon trace items hitems
    have hmark : expression.toList.head? = some '?' := by
      rw [toList_written, List.head?_cons]
    have hbracket' : ']' ∉ expression.toList :=
      notMem_written hp (by decide) (by simpa using hbracket) (by decide)
    have hcolon' : ':' ∉ expression.toList :=
      notMem_written hp (by decide) (by simpa using hcolon) (by decide)
    rw [Evaluation.evaluate_filter hmark hbracket' hcolon']
    refine congrArg Except.ok (List.filter_congr fun item hitem => ?_)
    obtain ⟨t, ht⟩ := hitems item hitem
    rw [Bool.eq_iff_iff, admits_quoted_iff hp hq ht, Value.hasText, ht, decide_eq_true_iff]

/-- A quoted text that looks like a number is found in every spelling, and another text is not. -/
theorem quoted_text_exact_number :
    let items := ["7.0", " +7", "7.0x"].map fun t => Value.object [("n", .text t)]
    IsWord "n" ∧ '\n' ∉ "7.0".toList ∧ ']' ∉ "7.0".toList ∧ ':' ∉ "7.0".toList ∧
    (∀ item ∈ items, ∃ t, item.get? "n" = some (.text t)) ∧
    (Evaluation.evaluate true (.list items) ("$[" ++ written "n" .equal ("'" ++ "7.0" ++ "'") ++
      "]")).value = .ok (items.filter (Value.hasText "n" "7.0")) ∧
    items.filter (Value.hasText "n" "7.0") = items.take 2 := by
  intro items
  have hp : IsWord "n" := ⟨by simp, by simp [isWordChar]⟩
  have hq : '\n' ∉ "7.0".toList := by simp
  have hbracket : ']' ∉ "7.0".toList := by simp
  have hcolon : ':' ∉ "7.0".toList := by simp
  have hitems : ∀ item ∈ items, ∃ t, item.get? "n" = some (.text t) := by
    intro item hitem
    obtain ⟨t, -, rfl⟩ := List.mem_map.mp hitem
    exact ⟨t, rfl⟩
  exact ⟨hp, hq, hbracket, hcolon, hitems,
    (quoted_text_exact hp hq).2.2 hbracket hcolon true items hitems, by decide +kernel⟩

/-- Quotes, parentheses and operators inside the quotes belong to the text. -/
example : (admits (written "n" .equal "' \x27) != 1 @.n < 2)'")
    (.object [("n", .text " \x27) != 1 @.n < 2)")])).value = true := by
  decide +kernel

end Condition
end PathQuery
