import Mathlib
import PathQuery.Proofs.TextLiteral

/-!
# Comparisons as an order

The extended line is linearly ordered, and every number but the one that is none has a place on it.
A value that counts as a number is compared with a literal number as one place with another, and a
text with a literal text as one text with another; no other value compares with a literal number. So
equality and the orderings never contradict each other.
-/
namespace PathQuery
open Text

namespace Position

/-- The place as a member of the integers with a least and a greatest element added. -/
def toExtended : Position → WithBot (WithTop ℤ)
  | bottom => ⊥
  | point units => ((units : WithTop ℤ) : WithBot (WithTop ℤ))
  | top => ((⊤ : WithTop ℤ) : WithBot (WithTop ℤ))

theorem toExtended_injective : Function.Injective toExtended := by
  intro p q h
  cases p <;> cases q <;> simp_all [toExtended]

instance : LinearOrder Position := LinearOrder.lift' toExtended toExtended_injective

theorem bottom_lt_point (units : ℤ) : bottom < point units := WithBot.bot_lt_coe _

theorem bottom_lt_top : bottom < top := WithBot.bot_lt_coe _

theorem point_lt_top (units : ℤ) : point units < top :=
  WithBot.coe_lt_coe.mpr (WithTop.coe_lt_top units)

theorem strictMono_point : StrictMono point :=
  fun _ _ h => WithBot.coe_lt_coe.mpr (WithTop.coe_lt_coe.mpr h)

/-- Comparing is by the order of the line. -/
theorem compare_compares (p q : Position) : (p.compare q).Compares p q := by
  cases p with
  | bottom =>
    cases q with
    | bottom => rfl
    | point b => exact bottom_lt_point b
    | top => exact bottom_lt_top
  | point a =>
    cases q with
    | bottom => exact bottom_lt_point a
    | point b => exact strictMono_point.compares.mpr ((compare_iff a b).mp rfl)
    | top => exact point_lt_top a
  | top =>
    cases q with
    | bottom => exact bottom_lt_top
    | point b => exact point_lt_top b
    | top => rfl

end Position

theorem Binary64.position?_eq_none_iff {x : Binary64} : x.position? = none ↔ x = .nan := by
  cases x <;> simp [position?]

namespace Number

theorem int_ne_undefined (n : Int) : int n ≠ undefined := by simp [undefined]

theorem position?_eq_none_iff {n : Number} : n.position? = none ↔ n = undefined := by
  cases n with
  | int n =>
    exact ⟨fun h => absurd h (Option.some_ne_none _), fun h => absurd h (int_ne_undefined n)⟩
  | float x => exact Binary64.position?_eq_none_iff.trans (by simp [undefined])

theorem exists_position_iff {n : Number} : (∃ p, n.position? = some p) ↔ n ≠ undefined := by
  rw [← Option.ne_none_iff_exists', ne_eq, ne_eq, position?_eq_none_iff]

theorem ne_undefined_of_read? {s : List Char} {n : Number} (h : read? s = some n) :
    n ≠ undefined := exists_position_iff.mp (exists_position_of_read? h)

end Number

namespace Literal

/-- The place at which a value, if there is one, is compared with a number. -/
def place? (actual : Option Value) : Option Position :=
  (actual.bind Value.reading?).bind Number.position?

/-- Whether a value, if there is one, counts as a number. -/
def IsNumeric : Option Value → Prop
  | some (.bool _) => True
  | some (.number (.int _)) => True
  | some (.number (.float x)) => x ≠ .nan
  | some (.text s) => ∃ n, Number.read? (trim isBlank s.toList) = some n
  | _ => False

theorem exists_place_iff {actual : Option Value} :
    (∃ p, place? actual = some p) ↔ IsNumeric actual := by
  cases actual with
  | none => simp [place?, IsNumeric]
  | some v =>
    cases v with
    | bool b =>
      simp only [place?, Option.bind_some, Value.reading?]
      exact iff_of_true (Number.exists_position_iff.mpr (Number.int_ne_undefined _)) trivial
    | number n =>
      cases n with
      | int n =>
        simp only [place?, Option.bind_some, Value.reading?]
        exact iff_of_true (Number.exists_position_iff.mpr (Number.int_ne_undefined n)) trivial
      | float x =>
        have hfloat : Number.float x ≠ .undefined ↔ x ≠ .nan := by simp [Number.undefined]
        exact Number.exists_position_iff.trans hfloat
    | text s =>
      simp only [place?, Option.bind_some, Value.reading?, Option.bind_eq_some_iff, IsNumeric]
      constructor
      · rintro ⟨p, n, hn, -⟩
        exact ⟨n, hn⟩
      · rintro ⟨n, hn⟩
        obtain ⟨p, hp⟩ := Number.exists_position_of_read? hn
        exact ⟨p, n, hn, hp⟩
    | _ => simp [place?, Value.reading?, IsNumeric]

/-- Equality and the two strict orderings of a value with a literal. -/
def outcomes (l : Literal) (actual : Option Value) : List Bool :=
  [l.equals actual, l.orders .less actual, l.orders .greater actual]

/-- At most one of equality and the two strict orderings holds, and the other two orderings add
equality to them. -/
structure Consistent (l : Literal) (actual : Option Value) : Prop where
  atMostOne : (outcomes l actual).count true ≤ 1
  greaterEqual : l.orders .greaterEqual actual = (l.orders .greater actual || l.equals actual)
  lessEqual : l.orders .lessEqual actual = (l.orders .less actual || l.equals actual)

/-- Ordering with a number looks at the places of the two sides only. -/
theorem orders_number (c : Number) (actual : Option Value) (i : Inequality) :
    (number c).orders i actual =
      (place? actual).any fun p => c.position?.any fun q => i.accepts (p.compare q) := by
  have hreading : (number c).reading? = some c := rfl
  simp only [orders, hreading, place?]
  cases actual.bind Value.reading? with
  | none => rfl
  | some m =>
    simp only [Number.compare?, Option.bind_some]
    cases m.position? <;> cases c.position? <;> rfl

theorem equals_number (c : Number) (actual : Option Value) :
    (number c).equals actual =
      (place? actual).any fun p => c.position?.any fun q => p.compare q == .eq := by
  simp only [equals, place?]
  cases actual.bind Value.reading? with
  | none => rfl
  | some m =>
    simp only [Number.compare?, Option.bind_some, Option.any_some]
    cases m.position? <;> cases c.position? <;> rfl

/-- The value is compared with the literal as one member of a line with another. -/
structure ComparedAs {α : Type} [LinearOrder α] (l : Literal) (actual : Option Value) (a b : α) :
    Prop where
  equal : l.equals actual = decide (a = b)
  less : l.orders .less actual = decide (a < b)
  greater : l.orders .greater actual = decide (b < a)
  lessEqual : l.orders .lessEqual actual = decide (a ≤ b)
  greaterEqual : l.orders .greaterEqual actual = decide (b ≤ a)

theorem comparedAs_of_compares {α : Type} [LinearOrder α] {l : Literal} {actual : Option Value}
    {o : Ordering} {a b : α} (h : o.Compares a b) (he : l.equals actual = (o == .eq))
    (ho : ∀ i, l.orders i actual = i.accepts o) : ComparedAs l actual a b := by
  constructor
  · rw [he, Bool.eq_iff_iff, beq_iff_eq, decide_eq_true_iff]
    exact h.eq_eq
  · rw [ho, Bool.eq_iff_iff, decide_eq_true_iff]
    exact Ordering.isLT_iff_eq_lt.trans h.eq_lt
  · rw [ho, Bool.eq_iff_iff, decide_eq_true_iff]
    exact Ordering.isGT_iff_eq_gt.trans h.eq_gt
  · rw [ho, Bool.eq_iff_iff, decide_eq_true_iff]
    exact Ordering.isLE_iff_ne_gt.trans h.ne_gt
  · rw [ho, Bool.eq_iff_iff, decide_eq_true_iff]
    exact Ordering.isGE_iff_ne_lt.trans h.ne_lt

theorem ComparedAs.consistent {α : Type} [LinearOrder α] {l : Literal} {actual : Option Value}
    {a b : α} (h : ComparedAs l actual a b) :
    Consistent l actual ∧ (outcomes l actual).count true = 1 := by
  have hcount : (outcomes l actual).count true = 1 := by
    rw [outcomes, h.equal, h.less, h.greater]
    rcases lt_trichotomy a b with hab | rfl | hab
    · simp [hab, hab.ne, hab.not_gt]
    · simp
    · simp [hab, hab.ne', hab.not_gt]
  refine ⟨⟨hcount.le, ?_, ?_⟩, hcount⟩
  · rw [h.greaterEqual, h.greater, h.equal, ← Bool.decide_or, decide_eq_decide, le_iff_lt_or_eq,
      eq_comm]
  · rw [h.lessEqual, h.less, h.equal, ← Bool.decide_or, decide_eq_decide, le_iff_lt_or_eq]

theorem comparedAs_place {c : Number} {actual : Option Value} {p q : Position}
    (hp : place? actual = some p) (hq : c.position? = some q) :
    ComparedAs (number c) actual p q := by
  apply comparedAs_of_compares (Position.compare_compares p q)
  · rw [equals_number, hp, hq]
    rfl
  · intro i
    rw [orders_number, hp, hq]
    rfl

theorem consistent_of_place?_eq_none {c : Number} {actual : Option Value}
    (hp : place? actual = none) :
    Consistent (number c) actual ∧ (outcomes (number c) actual).count true = 0 := by
  have he : (number c).equals actual = false := by rw [equals_number, hp, Option.any_none]
  have ho : ∀ i, (number c).orders i actual = false := by
    intro i
    rw [orders_number, hp, Option.any_none]
  have hcount : (outcomes (number c) actual).count true = 0 := by simp [outcomes, he, ho]
  exact ⟨⟨by simp [hcount], by simp [he, ho], by simp [he, ho]⟩, hcount⟩

theorem comparedAs_text (s t : String) : ComparedAs (text t) (some (.text s)) s t := by
  apply comparedAs_of_compares (o := compare s t) ((compare_iff s t).mp rfl)
  · rw [equals, Bool.eq_iff_iff, beq_iff_eq, beq_iff_eq, compare_eq_iff_eq]
  · intro i
    rfl

/-- A sequence or an object compares like a property that is missing. -/
theorem satisfies_of_container {v : Value} (h : v.isSequence = true ∨ v.isObject = true)
    (c : Comparison) (l : Literal) : l.satisfies c (some v) = l.satisfies c none := by
  cases v with
  | list items => cases l <;> rfl
  | tuple items => cases l <;> rfl
  | object entries => cases l <;> rfl
  | _ => exact absurd h (by simp [Value.isSequence, Value.isObject])

theorem satisfies_congr_container {v w : Value} (hv : v.isSequence = true ∨ v.isObject = true)
    (hw : w.isSequence = true ∨ w.isObject = true) (c : Comparison) (l : Literal) :
    l.satisfies c (some v) = l.satisfies c (some w) := by
  rw [satisfies_of_container hv, satisfies_of_container hw]

/-- Comparisons with a literal are consistent. With a number, one of equality and the strict
orderings holds exactly for the values that count as numbers, by the order of the places; with a
text, one of them holds for every text, by the order of the texts. -/
theorem comparisons_consistent :
    (∀ c : Number, c ≠ .undefined → ∀ actual : Option Value,
      Consistent (number c) actual ∧
      ((outcomes (number c) actual).count true = 1 ↔ IsNumeric actual) ∧
      ∀ p q, place? actual = some p → c.position? = some q →
        ComparedAs (number c) actual p q) ∧
    (∀ written c, Number.read? written = some c → c ≠ .undefined) ∧
    ∀ s t : String, Consistent (text t) (some (.text s)) ∧
      (outcomes (text t) (some (.text s))).count true = 1 ∧
      ComparedAs (text t) (some (.text s)) s t := by
  refine ⟨?_, fun _ _ => Number.ne_undefined_of_read?, ?_⟩
  · intro c hc actual
    obtain ⟨q, hq⟩ := Number.exists_position_iff.mpr hc
    have hplaces : ∀ p q, place? actual = some p → c.position? = some q →
        ComparedAs (number c) actual p q := fun _ _ => comparedAs_place
    cases hp : place? actual with
    | none =>
      have hnot : ¬ IsNumeric actual := by simp [← exists_place_iff, hp]
      obtain ⟨hconsistent, hcount⟩ := consistent_of_place?_eq_none (c := c) hp
      exact ⟨hconsistent, by simp [hcount, hnot], hp ▸ hplaces⟩
    | some p =>
      have hnumeric : IsNumeric actual := exists_place_iff.mp ⟨p, hp⟩
      obtain ⟨hconsistent, hcount⟩ := (hplaces p q hp hq).consistent
      exact ⟨hconsistent, by simp [hcount, hnumeric], hp ▸ hplaces⟩
  · intro s t
    obtain ⟨hconsistent, hcount⟩ := (comparedAs_text s t).consistent
    exact ⟨hconsistent, hcount, comparedAs_text s t⟩

/-- An integer that no floating-point number represents exceeds its neighbour below. -/
theorem comparisons_consistent_neighbour :
    let c := Number.float (.ofBits 0x4340000000000000)
    let actual := some (Value.int 9007199254740993)
    c ≠ .undefined ∧ IsNumeric actual ∧ Consistent (number c) actual ∧
      (outcomes (number c) actual).count true = 1 ∧
      outcomes (number c) actual = [false, false, true] := by
  intro c actual
  have hc : c ≠ .undefined := by decide +kernel
  have hnumeric : IsNumeric actual := trivial
  obtain ⟨hconsistent, hcount, -⟩ := comparisons_consistent.1 c hc actual
  exact ⟨hc, hnumeric, hconsistent, hcount.mpr hnumeric, by decide +kernel⟩

end Literal
end PathQuery
