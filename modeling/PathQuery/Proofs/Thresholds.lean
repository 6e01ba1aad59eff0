import Mathlib
import PathQuery.Proofs.Admission
import PathQuery.Proofs.ComparisonOrder

/-!
# Thresholds

All numbers lie on one line, so a value above a threshold is above every lower one, and a value
below a threshold is below every higher one, in whatever kinds of number the value and the two
thresholds are given. A value that is no number is on neither side. So a lower threshold keeps at
least the items that a higher one keeps from below, and the other way round from above.
-/
namespace PathQuery

namespace Literal

theorem exists_places_of_lessEqual {a b : Number}
    (h : (number b).orders .lessEqual (some (.number a)) = true) :
    ∃ p q, a.position? = some p ∧ b.position? = some q ∧ p ≤ q := by
  have hplace : place? (some (.number a)) = a.position? := rfl
  cases hp : a.position? with
  | none =>
    rw [orders_number, hplace, hp] at h
    exact absurd h (by simp)
  | some p =>
    cases hq : b.position? with
    | none =>
      rw [orders_number, hplace, hp, hq] at h
      exact absurd h (by simp)
    | some q =>
      rw [(comparedAs_place (hplace.trans hp) hq).lessEqual, decide_eq_true_iff] at h
      exact ⟨p, q, rfl, rfl, h⟩

/-- Whether a value above `b` is above `a`, and one below `a` is below `b`. -/
structure Weakens (a b : Number) (actual : Option Value) : Prop where
  greater : (number b).orders .greater actual = true → (number a).orders .greater actual = true
  greaterEqual :
    (number b).orders .greaterEqual actual = true → (number a).orders .greaterEqual actual = true
  less : (number a).orders .less actual = true → (number b).orders .less actual = true
  lessEqual :
    (number a).orders .lessEqual actual = true → (number b).orders .lessEqual actual = true

theorem weakens_of_lessEqual {a b : Number}
    (h : (number b).orders .lessEqual (some (.number a)) = true) (actual : Option Value) :
    Weakens a b actual := by
  obtain ⟨p, q, hp, hq, hpq⟩ := exists_places_of_lessEqual h
  cases hr : place? actual with
  | none =>
    have hnot : ∀ (c : Number) (i : Inequality), (number c).orders i actual ≠ true := by
      intro c i
      rw [orders_number, hr, Option.any_none]
      exact Bool.false_ne_true
    exact ⟨fun hb => absurd hb (hnot b _), fun hb => absurd hb (hnot b _),
      fun ha => absurd ha (hnot a _), fun ha => absurd ha (hnot a _)⟩
  | some r =>
    have ha := comparedAs_place hr hp
    have hb := comparedAs_place hr hq
    constructor
    · simpa only [ha.greater, hb.greater, decide_eq_true_iff] using hpq.trans_lt
    · simpa only [ha.greaterEqual, hb.greaterEqual, decide_eq_true_iff] using hpq.trans
    · simpa only [ha.less, hb.less, decide_eq_true_iff] using fun hrp => lt_of_lt_of_le hrp hpq
    · simpa only [ha.lessEqual, hb.lessEqual, decide_eq_true_iff] using fun hrp => hrp.trans hpq

end Literal

namespace Condition

/-- Whether an item is kept: it is no object, or its verdict is that the condition holds. -/
def keeps (c : Condition) (item : Value) : Bool :=
  !item.isObject || decide (c.verdict item = .ok true)

def kept (c : Condition) (items : List Value) : List Value := items.filter c.keeps

/-- An ordering that implies another one keeps no other items. -/
theorem kept_sublist {property : String} {i : Inequality} {l l' : Literal}
    (h : ∀ actual, l.orders i actual = true → l'.orders i actual = true) (items : List Value) :
    (kept ⟨property, .inequality i, l⟩ items).Sublist
      (kept ⟨property, .inequality i, l'⟩ items) := by
  apply List.monotone_filter_right
  intro item hitem
  simp only [keeps, verdict_eq, Except.ok.injEq, Bool.or_eq_true, decide_eq_true_eq] at hitem ⊢
  exact hitem.imp_right (h (item.get? property))

/-- Thresholds are monotone: raising the threshold `a` to `b` keeps no other items from below and
loses none from above, and the items that are kept stay in their order. -/
theorem threshold_sublist (property : String) {a b : Number}
    (h : (Literal.number b).orders .lessEqual (some (.number a)) = true) (items : List Value) :
    let keep := fun i c => kept ⟨property, .inequality i, .number c⟩ items
    (keep .greater b).Sublist (keep .greater a) ∧
      (keep .greaterEqual b).Sublist (keep .greaterEqual a) ∧
      (keep .less a).Sublist (keep .less b) ∧
      (keep .lessEqual a).Sublist (keep .lessEqual b) := by
  have hweakens := Literal.weakens_of_lessEqual h
  refine ⟨?_, ?_, ?_, ?_⟩
  · exact kept_sublist (fun actual => (hweakens actual).greater) items
  · exact kept_sublist (fun actual => (hweakens actual).greaterEqual) items
  · exact kept_sublist (fun actual => (hweakens actual).less) items
  · exact kept_sublist (fun actual => (hweakens actual).lessEqual) items

/-- The integer that no floating-point number represents is a lower threshold than the next number
that one does, for items that hold either of them or neither. -/
theorem threshold_sublist_neighbour :
    let a := Number.int 9007199254740993
    let b := Number.float (.ofBits 0x4340000000000001)
    let items := [Value.null, .object [("n", .int 9007199254740993)],
      .object [("n", .text " 9007199254740994 ")], .object [("n", .float .nan)], .object []]
    (Literal.number b).orders .lessEqual (some (.number a)) = true ∧
    (kept ⟨"n", .inequality .greaterEqual, .number b⟩ items).Sublist
      (kept ⟨"n", .inequality .greaterEqual, .number a⟩ items) ∧
    kept ⟨"n", .inequality .greaterEqual, .number b⟩ items = [items[0], items[2]] ∧
    kept ⟨"n", .inequality .greaterEqual, .number a⟩ items = [items[0], items[1], items[2]] := by
  intro a b items
  have h : (Literal.number b).orders .lessEqual (some (.number a)) = true := by decide +kernel
  exact ⟨h, (threshold_sublist "n" h items).2.1, by decide +kernel, by decide +kernel⟩

end Condition
end PathQuery
