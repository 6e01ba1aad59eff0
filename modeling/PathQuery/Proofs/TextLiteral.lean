import Mathlib
import PathQuery.Comparison
import PathQuery.Proofs.Trimming

/-!
# Literals that are texts

A literal that is no number stays a text, and a text equals no other kind of value. An ordering
trims it again, of more kinds of blanks than the reading of numbers skips: a text with such a blank
at an end may read as a number there and is then ordered with numbers. No other text is.
-/
namespace PathQuery
open Text

namespace Binary64

theorem exists_position_ofMagnitude (negative : Bool) (code : Nat) :
    ∃ p, (ofMagnitude negative code).position? = some p := by
  unfold ofMagnitude
  split
  · exact ⟨_, rfl⟩
  · exact ⟨_, rfl⟩

theorem exists_position_ofDecimal (negative : Bool) (digits : Nat) (exponent : Int) :
    ∃ p, (ofDecimal negative digits exponent).position? = some p := by
  unfold ofDecimal
  dsimp only
  split
  · exact ⟨_, rfl⟩
  · split
    · exact ⟨_, rfl⟩
    · exact exists_position_ofMagnitude _ _

end Binary64

namespace Number

theorem exists_position_of_readFloat? {s : List Char} {x : Binary64} (h : readFloat? s = some x) :
    ∃ p, x.position? = some p := by
  unfold readFloat? at h
  dsimp only at h
  split at h
  · cases h
    exact ⟨_, rfl⟩
  · obtain ⟨d, -, rfl⟩ := Option.map_eq_some_iff.mp h
    exact Binary64.exists_position_ofDecimal _ _ _

/-- What is read is never the number that is none. -/
theorem exists_position_of_read? {s : List Char} {n : Number} (h : read? s = some n) :
    ∃ p, n.position? = some p := by
  unfold read? at h
  split at h
  · cases h
    exact ⟨_, rfl⟩
  · obtain ⟨x, hx, rfl⟩ := Option.map_eq_some_iff.mp h
    exact exists_position_of_readFloat? hx

theorem read?_trim (s : List Char) : read? (trim isAsciiBlank s) = read? s := by
  simp only [read?, readInteger?, readFloat?, trim_trim]

end Number

theorem Inequality.exists_accepts (o : Ordering) : ∃ i : Inequality, i.accepts o = true := by
  cases o with
  | lt => exact ⟨.less, rfl⟩
  | eq => exact ⟨.lessEqual, rfl⟩
  | gt => exact ⟨.greater, rfl⟩

namespace Literal

theorem read?_eq_none_of_read {s : List Char} {t : String} (h : read s = text t) :
    Number.read? t.toList = none := by
  unfold read at h
  dsimp only at h
  split at h
  · exact absurd h (by simp)
  · rename_i hn
    cases h
    rw [String.toList_ofList, hn]

theorem equals_text_eq_false {t : String} {actual : Option Value}
    (ha : ∀ s, actual ≠ some (.text s)) : (text t).equals actual = false := by
  cases actual with
  | none => rfl
  | some v =>
    cases v with
    | text s => exact absurd rfl (ha s)
    | _ => rfl

theorem orders_text_iff {t : String} {actual : Option Value}
    (ha : ∀ s, actual ≠ some (.text s)) {i : Inequality} :
    (text t).orders i actual = true ↔
      ∃ m n, actual.bind Value.reading? = some m ∧
        Number.read? (trim isBlank t.toList) = some n ∧ (m.compare? n).any i.accepts = true := by
  have hreading : (text t).reading? = Number.read? (trim isBlank t.toList) := rfl
  rw [← hreading]
  unfold orders
  split
  · exact absurd rfl (ha _)
  · split
    · rename_i m n hm hn
      simp [hm, hn]
    · rename_i hnot
      constructor
      · intro h
        exact absurd h (by decide)
      · rintro ⟨m, n, hm, hn, -⟩
        exact absurd hn (hnot m n hm)

theorem exists_orders_text_iff {t : String} {actual : Option Value}
    (ha : ∀ s, actual ≠ some (.text s)) :
    (∃ i, (text t).orders i actual = true) ↔
      (∃ n, Number.read? (trim isBlank t.toList) = some n) ∧
        ∃ m p, actual.bind Value.reading? = some m ∧ m.position? = some p := by
  constructor
  · rintro ⟨i, hi⟩
    obtain ⟨m, n, hm, hn, haccepts⟩ := (orders_text_iff ha).mp hi
    refine ⟨⟨n, hn⟩, m, ?_⟩
    cases hp : m.position? with
    | none => simp [Number.compare?, hp] at haccepts
    | some p => exact ⟨p, hm, rfl⟩
  · rintro ⟨⟨n, hn⟩, m, p, hm, hp⟩
    obtain ⟨q, hq⟩ := Number.exists_position_of_read? hn
    obtain ⟨i, hi⟩ := Inequality.exists_accepts (p.compare q)
    exact ⟨i, (orders_text_iff ha).mpr ⟨m, n, hm, hn, by simp [Number.compare?, hp, hq, hi]⟩⟩

/-- A literal text never equals a value that is no text. It is ordered with one exactly when both
read as numbers, which a literal text does only by losing blanks outside the ASCII range. -/
theorem text_comparisons {written : List Char} {t : String} (h : read written = text t)
    {actual : Option Value} (ha : ∀ s, actual ≠ some (.text s)) :
    (text t).equals actual = false ∧
    ((∃ i, (text t).orders i actual = true) ↔
      (∃ n, Number.read? (trim isBlank t.toList) = some n) ∧
        ∃ m p, actual.bind Value.reading? = some m ∧ m.position? = some p) ∧
    (trim isBlank t.toList = trim isAsciiBlank t.toList →
      ∀ i, (text t).orders i actual = false) := by
  refine ⟨equals_text_eq_false ha, exists_orders_text_iff ha, ?_⟩
  intro htrim i
  have hnone : Number.read? (trim isBlank t.toList) = none := by
    rw [htrim, Number.read?_trim, read?_eq_none_of_read h]
  rw [Bool.eq_false_iff]
  intro hi
  obtain ⟨⟨n, hn⟩, -⟩ := (exists_orders_text_iff ha).mp ⟨i, hi⟩
  rw [hnone] at hn
  exact absurd hn (by simp)

theorem text_comparisons_plain :
    read "' x5'".toList = text " x5" ∧ (∀ s, some (Value.int 5) ≠ some (.text s)) ∧
    trim isBlank " x5".toList = trim isAsciiBlank " x5".toList ∧
    ∀ i, (text " x5").orders i (some (Value.int 5)) = false := by
  have h : read "' x5'".toList = text " x5" := by decide +kernel
  have ha : ∀ s, some (Value.int 5) ≠ some (.text s) := by
    intro s hs
    cases hs
  have htrim : trim isBlank " x5".toList = trim isAsciiBlank " x5".toList := by decide +kernel
  exact ⟨h, ha, htrim, (text_comparisons h ha).2.2 htrim⟩

/-- With a no-break space in quotes, a literal text is at least and at most a number that it neither
equals nor exceeds. -/
theorem text_orders_number :
    read "'\u00a05'".toList = text "\u00a05" ∧
    (text "\u00a05").equals (some (Value.int 5)) = false ∧
    (text "\u00a05").orders .greater (some (Value.int 5)) = false ∧
    (text "\u00a05").orders .less (some (Value.int 5)) = false ∧
    (text "\u00a05").orders .greaterEqual (some (Value.int 5)) = true ∧
    (text "\u00a05").orders .lessEqual (some (Value.int 5)) = true := by
  decide +kernel

end Literal
end PathQuery
