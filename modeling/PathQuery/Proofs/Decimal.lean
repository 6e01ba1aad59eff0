import Mathlib
import PathQuery.Path.Rendering
import PathQuery.Proofs.Trimming

/-!
# Decimal digits and saturation

Digits read back what they write. An integer is replaced when it has too many significant digits, so
what is read from digits is small or the largest word, and these integers are read exactly.
-/
namespace PathQuery

namespace Number

theorem digitsValue_eq_ofDigitChars (digits : List Char) :
    digitsValue digits = Nat.ofDigitChars 10 digits 0 := Nat.ofDigitChars_eq_foldl.symm

theorem digitsValue_toDigits (n : Nat) : digitsValue (Nat.toDigits 10 n) = n := by
  rw [digitsValue_eq_ofDigitChars, Nat.ofDigitChars_ten_toDigits]

theorem digitsValue_cons (c : Char) (digits : List Char) :
    digitsValue (c :: digits) = 10 ^ digits.length * (c.toNat - 48) + digitsValue digits := by
  simp only [digitsValue_eq_ofDigitChars, Nat.ofDigitChars_cons]
  rw [Nat.ofDigitChars_eq_ofDigitChars_zero, Nat.mul_zero, Nat.zero_add]
  rfl

theorem digitsValue_dropWhile_zero (digits : List Char) :
    digitsValue (digits.dropWhile (· = '0')) = digitsValue digits := by
  induction digits with
  | nil => rfl
  | cons c digits ih =>
    by_cases hc : c = '0'
    · subst hc
      rw [List.dropWhile_cons_of_pos (by simp), ih, digitsValue_cons]
      simp
    · rw [List.dropWhile_cons_of_neg (by simp [hc])]

theorem toNat_of_isDigit {c : Char} (h : c.isDigit = true) : 48 ≤ c.toNat ∧ c.toNat ≤ 57 := by
  simpa [Char.isDigit, UInt32.le_iff_toNat_le] using h

theorem isBlank_of_isDigit {c : Char} (h : c.isDigit = true) : Text.isBlank c = false := by
  have hc := toNat_of_isDigit h
  exact Text.isBlank_of_toNat (by omega) (by omega)

theorem digitsValue_lt {digits : List Char} (h : ∀ c ∈ digits, c.isDigit = true) :
    digitsValue digits < 10 ^ digits.length := by
  induction digits with
  | nil => decide
  | cons c digits ih =>
    have hc := toNat_of_isDigit (h c (by simp))
    have hd := ih fun d hd => h d (by simp [hd])
    rw [digitsValue_cons, List.length_cons, Nat.pow_succ]
    have hmul : 10 ^ digits.length * (c.toNat - 48) ≤ 10 ^ digits.length * 9 :=
      Nat.mul_le_mul_left _ (by omega)
    omega

theorem pow_le_digitsValue {c : Char} {digits : List Char} (hd : c.isDigit = true) (hc : c ≠ '0') :
    10 ^ digits.length ≤ digitsValue (c :: digits) := by
  have hdigit := toNat_of_isDigit hd
  have hzero : c.toNat ≠ 48 := fun he => hc (Char.toNat_inj.mp he)
  calc 10 ^ digits.length
      ≤ 10 ^ digits.length * (c.toNat - 48) := Nat.le_mul_of_pos_right _ (by omega)
    _ ≤ digitsValue (c :: digits) := by
      rw [digitsValue_cons]
      exact Nat.le_add_right _ _

theorem isDigits_toDigits (n : Nat) : isDigits (Nat.toDigits 10 n) = true := by
  have hdigit : ∀ c ∈ Nat.toDigits 10 n, c.isDigit = true :=
    fun c hc => Nat.isDigit_of_mem_toDigits (by decide) (by decide) hc
  simpa [isDigits, Nat.toDigits_ne_nil] using hdigit

end Number

namespace Segment
open Number Text

/-- Whether an integer is written with too few digits to be replaced, or is the replacement. -/
def IsExact (n : Nat) : Prop := n < 10 ^ 18 ∨ n = largestWord

instance : DecidablePred IsExact := fun _ => inferInstanceAs (Decidable (_ ∨ _))

theorem isExact_saturatedValue {digits : List Char} (h : ∀ c ∈ digits, c.isDigit = true) :
    IsExact (saturatedValue digits) := by
  have hsig : ∀ c ∈ digits.dropWhile (· = '0'), c.isDigit = true :=
    fun c hc => h c ((List.dropWhile_suffix _).subset hc)
  unfold saturatedValue
  generalize digits.dropWhile (· = '0') = significant at hsig
  dsimp only
  split
  · exact Or.inr rfl
  · rename_i hl
    refine Or.inl ((digitsValue_lt hsig).trans_le (Nat.pow_le_pow_right (by decide) ?_))
    simp only [saturationDigits] at hl
    omega

theorem saturatedValue_of_length {digits : List Char} (h : digits.length < saturationDigits) :
    saturatedValue digits = digitsValue digits := by
  have hl := (List.dropWhile_suffix (l := digits) fun c => decide (c = '0')).length_le
  rw [saturatedValue, if_neg (by omega), digitsValue_dropWhile_zero]

/-- The replacement shows only where both it and the integer are out of reach. -/
theorem saturatedValue_cases {digits : List Char} (h : ∀ c ∈ digits, c.isDigit = true) :
    saturatedValue digits = digitsValue digits ∨
      10 ^ 18 ≤ saturatedValue digits ∧ 10 ^ 18 ≤ digitsValue digits := by
  by_cases hl : saturationDigits ≤ (digits.dropWhile (· = '0')).length
  · right
    refine ⟨by rw [saturatedValue, if_pos hl]; decide, ?_⟩
    rw [← digitsValue_dropWhile_zero]
    cases hsig : digits.dropWhile (· = '0') with
    | nil => simp [hsig, saturationDigits] at hl
    | cons c rest =>
      have hmem : c ∈ digits.dropWhile (· = '0') := by rw [hsig]; exact List.mem_cons_self
      have hc : c.isDigit = true := h c ((List.dropWhile_suffix _).subset hmem)
      have hzero : c ≠ '0' := by simpa using Token.head_dropWhile hsig
      have hlength : 18 ≤ rest.length := by
        simp only [hsig, saturationDigits, List.length_cons] at hl
        omega
      exact (Nat.pow_le_pow_right (by decide) hlength).trans (pow_le_digitsValue hc hzero)
  · left
    rw [saturatedValue, if_neg hl, digitsValue_dropWhile_zero]

theorem saturatedValue_toDigits {n : Nat} (h : IsExact n) :
    saturatedValue (Nat.toDigits 10 n) = n := by
  rcases h with h | rfl
  · have hl : (Nat.toDigits 10 n).length ≤ 18 :=
      (Nat.length_toDigits_le_iff (by decide) (by decide)).mpr h
    rw [saturatedValue_of_length (by simp only [saturationDigits]; omega), digitsValue_toDigits]
  · decide +kernel

end Segment
end PathQuery
