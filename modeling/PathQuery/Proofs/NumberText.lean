import Mathlib
import PathQuery.Proofs.Reading
import PathQuery.Proofs.TextLiteral

/-!
# Texts of numbers

Numbers are written with few characters, none of which is a blank of any kind, so a text that is a
number stays the same number when it is trimmed of all blanks. An integer in decimal is read back exactly, with as many digits as
the reading of integers allows.
-/
namespace PathQuery
open Text

namespace Number

/-! ## The characters of numbers -/

/-- Numbers are written with letters and digits of the ASCII range, signs and the point. -/
def isNumberChar (c : Char) : Bool := c.isAlphanum || c ∈ ['+', '-', '.']

theorem toNat_of_isNumberChar {c : Char} (h : isNumberChar c = true) :
    0x20 < c.toNat ∧ c.toNat < 0x80 := by
  simp only [isNumberChar, Bool.or_eq_true, decide_eq_true_eq, List.mem_cons, List.not_mem_nil,
    or_false] at h
  rcases h with h | rfl | rfl | rfl
  · exact toNat_of_isAlphanum h
  · decide
  · decide
  · decide

theorem isBlank_of_isNumberChar {c : Char} (h : isNumberChar c = true) : isBlank c = false := by
  obtain ⟨hfirst, hlast⟩ := toNat_of_isNumberChar h
  exact isBlank_of_toNat hfirst hlast

theorem isNumberChar_of_isDigit {c : Char} (h : c.isDigit = true) : isNumberChar c = true := by
  simp [isNumberChar, Char.isAlphanum, h]

theorem isNumberChar_of_splitSign {s : List Char}
    (h : ∀ c ∈ (splitSign s).2, isNumberChar c = true) : ∀ c ∈ s, isNumberChar c = true := by
  unfold splitSign at h
  split at h
  · exact List.forall_mem_cons.mpr ⟨by decide, h⟩
  · exact List.forall_mem_cons.mpr ⟨by decide, h⟩
  · exact h

theorem isNumberChar_of_isDigits {digits : List Char} (h : isDigits digits = true) :
    ∀ c ∈ digits, isNumberChar c = true :=
  fun c hc => isNumberChar_of_isDigit (mem_isDigit_of_isDigits h c hc)

theorem isNumberChar_of_readInteger? {s : List Char} {n : ℤ} (h : readInteger? s = some n) :
    ∀ c ∈ trim isAsciiBlank s, isNumberChar c = true := by
  unfold readInteger? at h
  dsimp only at h
  split at h
  · rename_i hdigits
    exact isNumberChar_of_splitSign (isNumberChar_of_isDigits hdigits.1)
  · exact absurd h (by simp)

theorem isNumberChar_of_readExponent? {s : List Char} {e : ℤ} (h : readExponent? s = some e) :
    ∀ c ∈ s, isNumberChar c = true := by
  cases s with
  | nil => simp
  | cons c s =>
    unfold readExponent? at h
    dsimp only at h
    split at h
    · rename_i hmark
      have hc : isNumberChar c = true := by
        rcases hmark.1 with rfl | rfl <;> decide
      have hs := isNumberChar_of_splitSign (isNumberChar_of_isDigits hmark.2)
      exact List.forall_mem_cons.mpr ⟨hc, hs⟩
    · exact absurd h (by simp)

/-- A run of digits in front of a text does not matter for the characters that it holds. -/
theorem isNumberChar_of_dropWhile {s : List Char}
    (h : ∀ c ∈ s.dropWhile Char.isDigit, isNumberChar c = true) :
    ∀ c ∈ s, isNumberChar c = true := by
  intro c hc
  rw [← List.takeWhile_append_dropWhile (p := Char.isDigit) (l := s), List.mem_append] at hc
  rcases hc with hc | hc
  · exact isNumberChar_of_isDigit (List.mem_takeWhile_imp hc)
  · exact h c hc

theorem isNumberChar_of_splitFraction {s : List Char}
    (h : ∀ c ∈ (splitFraction s).2, isNumberChar c = true) : ∀ c ∈ s, isNumberChar c = true := by
  unfold splitFraction at h
  split at h
  · exact List.forall_mem_cons.mpr ⟨by decide, isNumberChar_of_dropWhile h⟩
  · exact h

theorem isNumberChar_of_readDecimal? {s : List Char} {d : ℕ × ℤ} (h : readDecimal? s = some d) :
    ∀ c ∈ s, isNumberChar c = true := by
  unfold readDecimal? at h
  dsimp only at h
  split at h
  · exact absurd h (by simp)
  · obtain ⟨e, he, -⟩ := Option.map_eq_some_iff.mp h
    have hrest := isNumberChar_of_splitFraction (isNumberChar_of_readExponent? he)
    exact isNumberChar_of_dropWhile hrest

theorem isNumberChar_of_infinityWords {s : List Char} (h : s.map Char.toLower ∈ infinityWords) :
    ∀ c ∈ s, isNumberChar c = true := by
  have hletters : ∀ word ∈ infinityWords, ∀ c ∈ word, c.isAlpha = true := by
    simp [infinityWords]
  intro c hc
  have hlower := hletters _ h c.toLower (List.mem_map_of_mem hc)
  rw [Char.isAlpha_toLower_eq_isAlpha] at hlower
  simp [isNumberChar, Char.isAlphanum, hlower]

theorem isNumberChar_of_readFloat? {s : List Char} {x : Binary64} (h : readFloat? s = some x) :
    ∀ c ∈ trim isAsciiBlank s, isNumberChar c = true := by
  unfold readFloat? at h
  dsimp only at h
  apply isNumberChar_of_splitSign
  split at h
  · rename_i hword
    exact isNumberChar_of_infinityWords hword
  · obtain ⟨d, hd, -⟩ := Option.map_eq_some_iff.mp h
    exact isNumberChar_of_readDecimal? hd

theorem isNumberChar_of_read? {s : List Char} {n : Number} (h : read? s = some n) :
    ∀ c ∈ trim isAsciiBlank s, isNumberChar c = true := by
  unfold read? at h
  split at h
  · rename_i hinteger
    exact isNumberChar_of_readInteger? hinteger
  · obtain ⟨x, hx, -⟩ := Option.map_eq_some_iff.mp h
    exact isNumberChar_of_readFloat? hx

theorem isBlank_of_read? {s : List Char} {n : Number} (h : read? s = some n) :
    ∀ c ∈ trim isAsciiBlank s, isBlank c = false :=
  fun c hc => isBlank_of_isNumberChar (isNumberChar_of_read? h c hc)

/-- A number stays the same number without the blanks around it. -/
theorem read?_trim_isBlank {s : List Char} {n : Number} (h : read? s = some n) :
    read? (trim isBlank s) = some n := by
  have htrim : trim isBlank s = trim isAsciiBlank s := by
    rw [← trim_trim_of_imp (fun c => isBlank_of_isAsciiBlank) s, trim_eq_self (isBlank_of_read? h)]
  rw [htrim, read?_trim, h]

/-! ## Integers in decimal -/

theorem toList_toString (n : ℤ) : (toString n).toList = Segment.integerText n := by
  unfold Segment.integerText
  cases n with
  | ofNat n =>
    have hn : ¬ Int.ofNat n < 0 := by simp
    rw [if_neg hn]
    exact Nat.toList_repr
  | negSucc n =>
    rw [if_pos (Int.negSucc_lt_zero n)]
    exact (String.toList_append (s := "-")).trans (congrArg ('-' :: ·) Nat.toList_repr)

theorem isDigit_or_minus_of_mem_integerText {n : ℤ} {c : Char} (h : c ∈ Segment.integerText n) :
    c.isDigit = true ∨ c = '-' := by
  rw [Segment.integerText, List.mem_append] at h
  rcases h with h | h
  · split at h
    · exact Or.inr (List.mem_singleton.mp h)
    · exact absurd h (by simp)
  · exact Or.inl (mem_isDigit_of_isDigits (isDigits_toDigits n.natAbs) c h)

theorem isBlank_of_mem_toString {n : ℤ} : ∀ c ∈ (toString n).toList, isBlank c = false := by
  intro c hc
  rw [toList_toString] at hc
  rcases isDigit_or_minus_of_mem_integerText hc with hdigit | rfl
  · exact isBlank_of_isDigit hdigit
  · decide

theorem isQuote_of_isDigit {c : Char} (h : c.isDigit = true) : isQuote c = false := by
  have hc := toNat_of_isDigit h
  rw [isQuote, Bool.or_eq_false_iff, beq_eq_false_iff_ne, beq_eq_false_iff_ne]
  constructor
  · rintro rfl
    exact absurd hc.1 (by decide)
  · rintro rfl
    exact absurd hc.1 (by decide)

theorem isQuote_of_mem_toString {n : ℤ} : ∀ c ∈ (toString n).toList, isQuote c = false := by
  intro c hc
  rw [toList_toString] at hc
  rcases isDigit_or_minus_of_mem_integerText hc with hdigit | rfl
  · exact isQuote_of_isDigit hdigit
  · decide

theorem splitSign_toString (n : ℤ) :
    splitSign (toString n).toList = (decide (n < 0), Nat.toDigits 10 n.natAbs) := by
  rw [toList_toString, Segment.integerText]
  by_cases hn : n < 0
  · simp [hn, splitSign]
  · simp only [hn, if_false, List.nil_append, decide_false]
    exact splitSign_digits (mem_isDigit_of_isDigits (isDigits_toDigits n.natAbs))

theorem applySign_natAbs (n : ℤ) : applySign (decide (n < 0)) n.natAbs = n := by
  unfold applySign
  by_cases hn : n < 0
  · simp only [hn, decide_true, if_true]
    omega
  · simp only [hn, decide_false, Bool.false_eq_true, if_false]
    omega

theorem read?_toString {n : ℤ} (h : (Nat.toDigits 10 n.natAbs).length ≤ digitLimit) :
    read? (toString n).toList = some (int n) := by
  have hblank : ∀ c ∈ (toString n).toList, isAsciiBlank c = false :=
    fun c hc => isAsciiBlank_eq_false (isBlank_of_mem_toString c hc)
  have hinteger : readInteger? (toString n).toList = some n := by
    have hdigits := isDigits_toDigits n.natAbs
    simp only [readInteger?, trim_eq_self hblank, splitSign_toString, hdigits, h, and_self, if_true,
      digitsValue_toDigits, applySign_natAbs]
  simp only [read?, hinteger]

end Number
end PathQuery
