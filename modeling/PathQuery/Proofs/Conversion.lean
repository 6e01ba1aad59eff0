import Mathlib
import PathQuery.Number.Conversion
import PathQuery.Proofs.BracketIntegers
import PathQuery.Proofs.ComparisonOrder
import PathQuery.Proofs.NumberText

/-!
# Conversion never fails

A text that is converted at all is read as it stands, and a mark of a floating-point number is never
part of an integer or of the word for the number that is none. So the conversions agree with the
plain reading of numbers whichever of them comes first, and every refusal is answered. What is read
as an integer is exactly a sign and digits between blanks.
-/
namespace PathQuery

theorem Segment.IntegerText.dropSeparators?_of_notMem {s : List Char} (h : '_' ∉ s)
    (afterDigit : Bool) : dropSeparators? afterDigit s = some s := by
  induction s generalizing afterDigit with
  | nil => rfl
  | cons c s ih =>
    rw [List.mem_cons, not_or] at h
    rw [dropSeparators?, if_neg (Ne.symm h.1), ih h.2, Option.map_some]

namespace Number
open Text

/-! ## Texts that are converted -/

/-- What is asked of a text before it is converted. -/
structure IsPlain (s : List Char) : Prop where
  ascii : ∀ c ∈ s, isAscii c = true
  unseparated : '_' ∉ s

theorem IsPlain.legible?_eq {s : List Char} (h : IsPlain s) : legible? s = some s := by
  have hplain : ∀ c ∈ s, plain c = id c := fun c hc => if_pos (h.ascii c hc)
  rw [legible?, List.map_congr_left hplain, List.map_id,
    Segment.IntegerText.dropSeparators?_of_notMem h.unseparated]

theorem isAscii_of_isAsciiBlank {c : Char} (h : isAsciiBlank c = true) : isAscii c = true := by
  simp only [isAsciiBlank, inRanges, List.any_cons, List.any_nil, Bool.or_false, Bool.or_eq_true,
    Bool.and_eq_true, decide_eq_true_eq] at h
  simp only [isAscii, decide_eq_true_eq]
  omega

theorem isAsciiBlank_or_mem_trim {s : List Char} {c : Char} (h : c ∈ s) :
    isAsciiBlank c = true ∨ c ∈ trim isAsciiBlank s := by
  obtain ⟨front, back, hs, hfront, hback⟩ := exists_trim_append isAsciiBlank s
  rw [hs, List.mem_append, List.mem_append] at h
  rcases h with h | h | h
  · exact Or.inl (hfront c h)
  · exact Or.inr h
  · exact Or.inl (hback c h)

theorem isPlain_of_read? {s : List Char} {n : Number} (h : read? s = some n) : IsPlain s := by
  have hchar : ∀ c ∈ s, isAsciiBlank c = true ∨ isNumberChar c = true := fun c hc =>
    (isAsciiBlank_or_mem_trim hc).imp_right (isNumberChar_of_read? h c)
  constructor
  · intro c hc
    rcases hchar c hc with hblank | hnumber
    · exact isAscii_of_isAsciiBlank hblank
    · simpa [isAscii] using (toNat_of_isNumberChar hnumber).2
  · intro hc
    have hnot : ¬ (isAsciiBlank '_' = true ∨ isNumberChar '_' = true) := by decide
    exact hnot (hchar '_' hc)

/-! ## Marks -/

theorem excluded_of_isMark {c : Char} (h : isMark c = true) :
    isAsciiBlank c = false ∧ Segment.isSign c = false ∧ c.isDigit = false ∧
      c.toLower ∉ undefinedWord := by
  have hmarks : c = '.' ∨ c = 'e' ∨ c = 'E' := by simpa [isMark, or_assoc] using h
  rcases hmarks with rfl | rfl | rfl
  · exact ⟨rfl, rfl, rfl, by decide⟩
  · exact ⟨rfl, rfl, rfl, by decide⟩
  · exact ⟨rfl, rfl, rfl, by decide⟩

theorem isSign_or_mem_splitSign {s : List Char} {c : Char} (h : c ∈ s) :
    Segment.isSign c = true ∨ c ∈ (splitSign s).2 := by
  rw [← (Segment.sign_append_splitSign s).1, List.mem_append] at h
  refine h.imp_left fun hc => ?_
  rw [Option.mem_toList] at hc
  exact (Option.filter_eq_some_iff.mp hc).2

/-- A mark is neither a blank nor a sign, so it stays when these are taken off. -/
theorem mem_unsigned_of_isMark {s : List Char} {c : Char} (hc : c ∈ s) (hmark : isMark c = true) :
    c ∈ unsigned s := by
  obtain ⟨hblank, hsign, -⟩ := excluded_of_isMark hmark
  have htrim : c ∈ trim isAsciiBlank s :=
    (isAsciiBlank_or_mem_trim hc).resolve_left (by simp [hblank])
  exact (isSign_or_mem_splitSign htrim).resolve_left (by simp [hsign])

theorem readInteger?_of_isMark {s : List Char} (h : s.any isMark = true) :
    readInteger? s = none := by
  obtain ⟨c, hc, hmark⟩ := List.any_eq_true.mp h
  have hdigits : isDigits (unsigned s) ≠ true := by
    intro hdigits
    have hdigit := mem_isDigit_of_isDigits hdigits c (mem_unsigned_of_isMark hc hmark)
    simp [(excluded_of_isMark hmark).2.2.1] at hdigit
  exact if_neg fun hshort => hdigits hshort.1

theorem readFloatOrUndefined?_of_isMark {s : List Char} (h : s.any isMark = true) :
    readFloatOrUndefined? s = readFloat? s := by
  obtain ⟨c, hc, hmark⟩ := List.any_eq_true.mp h
  refine if_neg fun hword => (excluded_of_isMark hmark).2.2.2 ?_
  rw [← hword]
  exact List.mem_map_of_mem (mem_unsigned_of_isMark hc hmark)

/-! ## The number that is none -/

theorem readDecimal?_of_isAlpha {c : Char} (h : c.isAlpha = true) (s : List Char) :
    readDecimal? (c :: s) = none := by
  have hdigit : c.isDigit = false := by
    rw [Bool.eq_false_iff]
    intro hdigit
    have hdigit := toNat_of_isDigit hdigit
    have hletter : 65 ≤ c.toNat ∧ c.toNat ≤ 90 ∨ 97 ≤ c.toNat ∧ c.toNat ≤ 122 := by
      simpa [Char.isAlpha, Char.isUpper, Char.isLower, UInt32.le_iff_toNat_le] using h
    omega
  have hpoint : c ≠ '.' := by
    rintro rfl
    exact absurd h (by decide)
  simp [readDecimal?, splitFraction, hdigit, hpoint]

theorem readFloat?_of_undefinedWord {s : List Char}
    (h : (unsigned s).map Char.toLower = undefinedWord) : readFloat? s = none := by
  have hinfinity : (unsigned s).map Char.toLower ∉ infinityWords := by
    rw [h]
    decide
  have hdecimal : readDecimal? (unsigned s) = none := by
    obtain ⟨c, rest, hs, hc, -⟩ := List.map_eq_cons_iff.mp h
    have halpha : c.isAlpha = true := by
      rw [← Char.isAlpha_toLower_eq_isAlpha, hc]
      rfl
    rw [hs, readDecimal?_of_isAlpha halpha]
  rw [unsigned] at hinfinity hdecimal
  simp only [readFloat?, hinfinity, if_false, hdecimal, Option.map_none]

/-! ## Conversion is reading -/

section
variable {s : List Char}

theorem convertBy_eq {α : Type} (h : IsPlain s) (read : List Char → Option α)
    (refusal : Refusal) : convertBy read refusal s = (read s).elim (.error refusal) .ok := by
  rw [convertBy, h.legible?_eq, Option.bind_some]
  cases read s <;> rfl

theorem convertFirst_of_isMark (h : IsPlain s) (hmark : s.any isMark = true) :
    convertFirst s = (readFloat? s).elim (.error .notAFloat) (.ok ∘ float) := by
  rw [convertFirst, if_pos hmark, convertFloat, convertBy_eq h,
    readFloatOrUndefined?_of_isMark hmark]
  cases readFloat? s <;> rfl

theorem convertFirst_of_not_isMark (h : IsPlain s) (hmark : s.any isMark ≠ true) :
    convertFirst s = (readInteger? s).elim (.error .notAnInteger) (.ok ∘ int) := by
  rw [convertFirst, if_neg hmark, convertInteger, convertBy_eq h]
  cases readInteger? s <;> rfl

theorem readFloat?_ne_nan : readFloat? s ≠ some .nan := by
  intro h
  obtain ⟨p, hp⟩ := exists_position_of_readFloat? h
  exact absurd hp (by simp [Binary64.position?])

theorem convertAgain_eq (h : IsPlain s) : convertAgain s = .ok ((readFloat? s).map float) := by
  rw [convertAgain, convertFloat, convertBy_eq h, readFloatOrUndefined?]
  split
  · rename_i hword
    rw [readFloat?_of_undefinedWord hword]
    rfl
  · cases hx : readFloat? s with
    | none => rfl
    | some x =>
      have hnan : x ≠ .nan := by
        rintro rfl
        exact readFloat?_ne_nan hx
      simp only [Option.elim_some, Except.map, if_neg hnan]
      rfl

/-- A refusal of the first conversion leaves an infinity word or no number at all, and both are left
to the second. -/
theorem tryCatch_convertFirst (h : IsPlain s) :
    (tryCatch ((convertFirst s).map some) fun _ => convertAgain s) = .ok (read? s) := by
  rw [convertAgain_eq h, read?]
  by_cases hmark : s.any isMark = true
  · rw [convertFirst_of_isMark h hmark, readInteger?_of_isMark hmark]
    cases readFloat? s <;> rfl
  · rw [convertFirst_of_not_isMark h hmark]
    cases readInteger? s <;> rfl

end

theorem isConverted_iff {s : List Char} :
    (s.isEmpty || !s.all isAscii || s.contains '_') = false ↔ s ≠ [] ∧ IsPlain s := by
  constructor
  · intro h
    have h : (s ≠ [] ∧ ∀ c ∈ s, isAscii c = true) ∧ '_' ∉ s := by simpa using h
    exact ⟨h.1.1, h.1.2, h.2⟩
  · rintro ⟨hne, hplain⟩
    simpa using ⟨⟨hne, hplain.ascii⟩, hplain.unseparated⟩

theorem read?_nil : read? [] = none := rfl

/-- Converting a text never fails, and gives the number that is read. -/
theorem convert_eq (s : List Char) : convert s = .ok (read? s) := by
  by_cases hs : s ≠ [] ∧ IsPlain s
  · rw [convert, isConverted_iff.mpr hs, if_neg Bool.false_ne_true]
    exact tryCatch_convertFirst hs.2
  · have hnone : read? s = none := by
      rw [Option.eq_none_iff_forall_ne_some]
      intro n hn
      refine hs ⟨?_, isPlain_of_read? hn⟩
      rintro rfl
      rw [read?_nil] at hn
      exact absurd hn (by simp)
    have hguard := mt isConverted_iff.mp hs
    rw [Bool.not_eq_false] at hguard
    rw [convert, if_pos hguard, hnone]

/-- Without the condition on its characters, a text would be converted that is no number here. -/
example : convertInteger ['1', '_', '\u0663'] = .ok 13 ∧
    convert ['1', '_', '\u0663'] = .ok none := by
  decide +kernel

/-! ## Integers -/

/-- A text that is an integer and nothing else: a sign or none and a run of digits of bounded
length, between blanks of the ASCII range. -/
structure Spells (s front sign digits back : List Char) : Prop where
  text_eq : s = front ++ (sign ++ (digits ++ back))
  front_blank : ∀ c ∈ front, isAsciiBlank c = true
  sign_mem : sign = [] ∨ sign = ['+'] ∨ sign = ['-']
  digits_ne_nil : digits ≠ []
  digits_run : ∀ c ∈ digits, c.isDigit = true
  digits_length : digits.length ≤ 4300
  back_blank : ∀ c ∈ back, isAsciiBlank c = true

theorem isDigits_iff {digits : List Char} :
    isDigits digits = true ↔ digits ≠ [] ∧ ∀ c ∈ digits, c.isDigit = true := by
  simp [isDigits]

theorem Spells.trim_eq {s front sign digits back : List Char}
    (h : Spells s front sign digits back) : trim isAsciiBlank s = sign ++ digits := by
  have hsign : ∀ c ∈ sign, isAsciiBlank c = false := by
    rcases h.sign_mem with rfl | rfl | rfl <;> simp [isAsciiBlank, inRanges]
  have hblank : ∀ c ∈ sign ++ digits, isAsciiBlank c = false := by
    intro c hc
    rcases List.mem_append.mp hc with hc | hc
    · exact hsign c hc
    · exact isAsciiBlank_of_isDigit (h.digits_run c hc)
  rw [h.text_eq, ← List.append_assoc sign, trim_append_of_pos h.front_blank h.back_blank,
    trim_eq_self hblank]

theorem Spells.readInteger?_eq {s front sign digits back : List Char}
    (h : Spells s front sign digits back) :
    readInteger? s = some (Segment.signedValue sign digits) := by
  have hhead : ∀ c ∈ digits.head?, c.isDigit = true :=
    fun c hc => h.digits_run c (List.mem_of_head? hc)
  have hdigits := isDigits_iff.mpr ⟨h.digits_ne_nil, h.digits_run⟩
  simp only [readInteger?, h.trim_eq, Segment.splitSign_append h.sign_mem hhead]
  rw [if_pos ⟨hdigits, h.digits_length⟩, Segment.signedValue_eq]

theorem exists_spells {s : List Char} {n : ℤ} (h : readInteger? s = some n) :
    ∃ front sign digits back, Spells s front sign digits back ∧
      Segment.signedValue sign digits = n := by
  obtain ⟨front, back, hs, hfront, hback⟩ := exists_trim_append isAsciiBlank s
  obtain ⟨sign, happ, hsign, hnegative⟩ := Segment.exists_sign_append (trim isAsciiBlank s)
  unfold readInteger? at h
  dsimp only at h
  split at h
  · rename_i hdigits
    obtain ⟨hne, hrun⟩ := isDigits_iff.mp hdigits.1
    refine ⟨front, sign, _, back, ⟨?_, hfront, hsign, hne, hrun, hdigits.2, hback⟩, ?_⟩
    · rw [← List.append_assoc sign, happ, ← hs]
    · rw [Segment.signedValue_eq, ← hnegative]
      exact Option.some.inj h
  · exact absurd h (by simp)

theorem readInteger?_eq_some_iff {s : List Char} {n : ℤ} :
    readInteger? s = some n ↔ ∃ front sign digits back, Spells s front sign digits back ∧
      Segment.signedValue sign digits = n := by
  constructor
  · exact exists_spells
  · rintro ⟨front, sign, digits, back, h, rfl⟩
    exact h.readInteger?_eq

theorem read?_eq_int_iff {s : List Char} {n : ℤ} :
    read? s = some (int n) ↔ readInteger? s = some n := by
  unfold read?
  cases readInteger? s <;> simp

/-- Reading a text never fails and never gives the number that is none. It gives an integer exactly
when the text spells one, with its value, so that it inverts printing; and any number that it gives
it gives for the trimmed text, too. -/
theorem conversion_exact (s : List Char) :
    convert s = .ok (read? s) ∧
    read? s ≠ some (float .nan) ∧
    (∀ n : ℤ, read? s = some (int n) ↔
      (∀ c ∈ s, isAscii c = true) ∧ ∃ front sign digits back,
        Spells s front sign digits back ∧ Segment.signedValue sign digits = n) ∧
    (∀ m : Number, read? s = some m → read? (trim isBlank s) = some m) ∧
    ∀ n : ℤ, (Nat.toDigits 10 n.natAbs).length ≤ 4300 →
      read? (toString n).toList = some (int n) := by
  refine ⟨convert_eq s, ?_, fun n => ?_, fun m => read?_trim_isBlank, fun n => read?_toString⟩
  · intro h
    exact ne_undefined_of_read? h rfl
  · rw [← readInteger?_eq_some_iff, ← read?_eq_int_iff]
    exact ⟨fun h => ⟨(isPlain_of_read? h).ascii, h⟩, fun h => h.2⟩

/-- Blanks on both sides, a sign and zeros in front; and an integer beyond every word. -/
theorem conversion_exact_padded :
    let s := [' ', '\x0c', '-', '0', '4', '2', '\r', '\n']
    let n : ℤ := -18446744073709551617
    (∀ c ∈ s, isAscii c = true) ∧
    Spells s [' ', '\x0c'] ['-'] ['0', '4', '2'] ['\r', '\n'] ∧
    convert s = .ok (some (int (-42))) ∧ read? s = some (int (-42)) ∧
    read? (trim isBlank s) = some (int (-42)) ∧
    (Nat.toDigits 10 n.natAbs).length ≤ 4300 ∧ read? (toString n).toList = some (int n) := by
  intro s n
  have hascii : ∀ c ∈ s, isAscii c = true := by simp [s, isAscii]
  have hspells : Spells s [' ', '\x0c'] ['-'] ['0', '4', '2'] ['\r', '\n'] := by
    constructor
    case text_eq => rfl
    case front_blank => simp [isAsciiBlank, inRanges]
    case sign_mem => simp
    case digits_ne_nil => simp
    case digits_run => simp
    case digits_length => simp
    case back_blank => simp [isAsciiBlank, inRanges]
  have hn : (Nat.toDigits 10 n.natAbs).length ≤ 4300 := by decide +kernel
  obtain ⟨hconvert, -, hinteger, htrim, hprinted⟩ := conversion_exact s
  have hread : read? s = some (int (-42)) :=
    (hinteger (-42)).mpr ⟨hascii, _, _, _, _, hspells, by decide⟩
  exact ⟨hascii, hspells, by rw [hconvert, hread], hread, htrim _ hread, hn, hprinted n hn⟩

end Number
end PathQuery
