import Mathlib
import PathQuery.Proofs.ComparisonOrder
import PathQuery.Proofs.NumberText
import PathQuery.Proofs.WrittenConditions

/-!
# Integers are compared exactly

An integer in decimal is read without rounding, bare or in quotes, and integers keep their order on
the extended line. So a filter compares an integer with an integer of any size as the integers are
compared, and does the same when the item holds the integer in decimal.
-/
namespace PathQuery
open Text

/-- What a comparison says about two members of a line. -/
def Comparison.Relates {α : Type} [LinearOrder α] : Comparison → α → α → Prop
  | equal, a, b => a = b
  | unequal, a, b => a ≠ b
  | inequality .greater, a, b => a > b
  | inequality .less, a, b => a < b
  | inequality .greaterEqual, a, b => a ≥ b
  | inequality .lessEqual, a, b => a ≤ b

namespace Literal

variable {α β : Type} [LinearOrder α] [LinearOrder β] {l : Literal} {actual : Option Value}

theorem ComparedAs.satisfies_iff {a b : α} (h : ComparedAs l actual a b) (o : Comparison) :
    l.satisfies o actual = true ↔ o.Relates a b := by
  rcases o with _ | _ | i
  · simp [satisfies, Comparison.Relates, h.equal]
  · simp [satisfies, Comparison.Relates, h.equal]
  · cases i <;> simp [satisfies, Comparison.Relates, h.less, h.greater, h.lessEqual, h.greaterEqual]

theorem ComparedAs.of_strictMono {f : α → β} (hf : StrictMono f) {a b : α}
    (h : ComparedAs l actual (f a) (f b)) : ComparedAs l actual a b := by
  constructor
  · rw [h.equal, decide_eq_decide, hf.injective.eq_iff]
  · rw [h.less, decide_eq_decide, hf.lt_iff_lt]
  · rw [h.greater, decide_eq_decide, hf.lt_iff_lt]
  · rw [h.lessEqual, decide_eq_decide, hf.le_iff_le]
  · rw [h.greaterEqual, decide_eq_decide, hf.le_iff_le]

end Literal

theorem Position.strictMono_integer : StrictMono fun n : ℤ => point (n * Binary64.one) := by
  have hone : (0 : ℤ) < Binary64.one := by
    have hpow : 0 < Binary64.one := by decide +kernel
    exact_mod_cast hpow
  exact strictMono_point.comp (strictMono_mul_right_of_pos hone)

namespace Literal

theorem comparedAs_int {actual : Option Value} {m n : ℤ}
    (h : actual.bind Value.reading? = some (.int m)) :
    ComparedAs (number (.int n)) actual m n := by
  have hm : place? actual = some (.point (m * Binary64.one)) := by
    rw [place?, h]
    rfl
  exact (comparedAs_place hm rfl).of_strictMono Position.strictMono_integer

theorem read_toString {n : ℤ} (h : (Nat.toDigits 10 n.natAbs).length ≤ Number.digitLimit) :
    read (toString n).toList = number (.int n) := by
  simp only [read, trim_eq_self Number.isBlank_of_mem_toString,
    stripQuotes_eq_self Number.isQuote_of_mem_toString, Number.read?_toString h]

end Literal

namespace Condition

/-- An integer is read exactly, without quotes and in quotes of either kind. -/
theorem read_literalText_integer {mark : String} (hmark : mark ∈ ["", "'", "\x22"]) {n : ℤ}
    (hn : (Nat.toDigits 10 n.natAbs).length ≤ Number.digitLimit) :
    Literal.read (literalText (mark ++ toString n ++ mark).toList) = .number (.int n) := by
  have hfeed : '\n' ∉ (toString n).toList := by
    intro hc
    have hblank := Number.isBlank_of_mem_toString _ hc
    exact absurd hblank (by decide)
  have hquoted : ∀ c, isQuote c = true →
      Literal.read (literalText (c :: ((toString n).toList ++ [c]))) = .number (.int n) := by
    intro c hc
    rw [literalText_enclosed hc hc hfeed, Literal.read_enclosed hc hc, Number.read?_toString hn]
    rfl
  simp only [List.mem_cons, List.not_mem_nil, or_false] at hmark
  rcases hmark with rfl | rfl | rfl
  · have hblank : ∀ c ∈ (toString n).toList.head?, isAsciiBlank c = false := fun c hc =>
      isAsciiBlank_eq_false (Number.isBlank_of_mem_toString c (List.mem_of_head? hc))
    rw [String.empty_append, String.append_empty, literalText_eq_self hblank hfeed,
      Literal.read_toString hn]
  · simpa [apostrophe] using hquoted apostrophe (by decide)
  · simpa [quotationMark] using hquoted quotationMark (by decide)

/-- Filters compare integers exactly: an item whose property is an integer, or its text in decimal,
is admitted just when the two integers stand in the relation of the operator. -/
theorem integer_comparison_exact {property : String} (hp : IsWord property) (o : Comparison)
    {n : ℤ} (hn : (Nat.toDigits 10 n.natAbs).length ≤ 4300) {mark : String}
    (hmark : mark ∈ ["", "'", "\x22"]) (m : ℤ) (item : Value) :
    let expression := written property o (mark ++ toString n ++ mark)
    (item.get? property = some (.int m) →
      ((admits expression item).value = true ↔ o.Relates m n)) ∧
    (item.get? property = some (.text (toString m)) →
      (Nat.toDigits 10 m.natAbs).length ≤ 4300 →
      ((admits expression item).value = true ↔ o.Relates m n)) := by
  intro expression
  have hliteral := read_literalText_integer hmark hn
  constructor
  · intro hv
    rw [admits_written hp o _ hv, hliteral]
    exact (Literal.comparedAs_int rfl).satisfies_iff o
  · intro hv hm
    have hreading : (some (Value.text (toString m))).bind Value.reading? = some (.int m) := by
      rw [Option.bind_some, Value.reading?, Number.read?_trim_isBlank (Number.read?_toString hm)]
    rw [admits_written hp o _ hv, hliteral]
    exact (Literal.comparedAs_int hreading).satisfies_iff o

/-- Integers that one floating-point number would stand for are told apart, in each form. -/
theorem integer_comparison_exact_neighbour :
    let n : ℤ := -9007199254740993
    let m : ℤ := -9007199254740992
    let expression := written "n" (.inequality .greater) ("'" ++ toString n ++ "'")
    let item := Value.object [("n", .text (toString m))]
    IsWord "n" ∧ (Nat.toDigits 10 n.natAbs).length ≤ 4300 ∧ "'" ∈ ["", "'", "\x22"] ∧
    item.get? "n" = some (.text (toString m)) ∧ (Nat.toDigits 10 m.natAbs).length ≤ 4300 ∧
    (admits expression item).value = true := by
  intro n m expression item
  have hp : IsWord "n" := ⟨by simp, by simp [isWordChar]⟩
  have hshort : ∀ k < 10 ^ 16, (Nat.toDigits 10 k).length ≤ 4300 := by
    intro k hk
    have hlength := (Nat.length_toDigits_le_iff (b := 10) (by decide) (by decide)).mpr hk
    omega
  have hn : (Nat.toDigits 10 n.natAbs).length ≤ 4300 := hshort _ (by decide)
  have hm : (Nat.toDigits 10 m.natAbs).length ≤ 4300 := hshort _ (by decide)
  have hmark : "'" ∈ ["", "'", "\x22"] := by simp
  have hitem : item.get? "n" = some (.text (toString m)) := by simp [item, Value.get?]
  have hexact := (integer_comparison_exact hp (.inequality .greater) hn hmark m item).2 hitem hm
  have hrelates : (Comparison.inequality .greater).Relates m n := by
    change m > n
    decide
  exact ⟨hp, hn, hmark, hitem, hm, hexact.mpr hrelates⟩

end Condition
end PathQuery
