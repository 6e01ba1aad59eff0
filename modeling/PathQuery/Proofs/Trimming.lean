import Mathlib
import PathQuery.Path

/-!
# Trimmed texts

Trimming leaves a text that begins and ends with no character of the class, so it changes nothing
when it is repeated. Letters, digits and quotes are no blanks, and quotes are dropped at the ends of
a text only. A path loses its sigils after it is trimmed: what is left is the end of the trimmed
text, and is blank only when it is empty.
-/
namespace PathQuery
namespace Text

theorem trimEnd_eq_rdropWhile (p : Char → Bool) (s : List Char) : trimEnd p s = s.rdropWhile p := rfl

theorem getLast?_trimEnd {p : Char → Bool} {s : List Char} :
    ∀ c ∈ (trimEnd p s).getLast?, p c = false := by
  intro c hc
  obtain ⟨hne, rfl⟩ := List.mem_getLast?_eq_getLast hc
  exact Bool.not_eq_true _ ▸ List.rdropWhile_last_not p s hne

theorem trimEnd_eq_self {p : Char → Bool} {s : List Char}
    (h : ∀ c ∈ s.getLast?, p c = false) : trimEnd p s = s := by
  rw [trimEnd_eq_rdropWhile, List.rdropWhile_eq_self_iff]
  intro hne
  simp [h _ (List.getLast?_eq_getLast_of_ne_nil hne)]

theorem trimEnd_append {p : Char → Bool} {s t : List Char} (h : trimEnd p t ≠ []) :
    trimEnd p (s ++ t) = s ++ trimEnd p t := by
  have hne : t.reverse.dropWhile p ≠ [] := fun he => h (by simp [trimEnd, he])
  simp [trimEnd, List.dropWhile_append, hne]

theorem trimEnd_cons {p : Char → Bool} {c : Char} (hc : p c = false) (s : List Char) :
    trimEnd p (c :: s) = c :: trimEnd p s := by
  by_cases h : trimEnd p s = []
  · have hall : ∀ d ∈ s, p d = true := List.rdropWhile_eq_nil_iff.mp h
    have hs : s.reverse.dropWhile p = [] := by simpa using hall
    simp [trimEnd, List.dropWhile_append, hs, hc]
  · exact trimEnd_append (s := [c]) h

theorem trim_cons {p : Char → Bool} {c : Char} (hc : p c = false) (s : List Char) :
    trim p (c :: s) = c :: trimEnd p s := by
  rw [trim, List.dropWhile_cons_of_neg (by simp [hc]), trimEnd_cons hc]

theorem trim_cases (p : Char → Bool) (s : List Char) :
    trim p s = [] ∨ ∃ c rest, p c = false ∧ trim p s = c :: rest := by
  unfold trim
  cases h : s.dropWhile p with
  | nil => exact Or.inl rfl
  | cons c rest =>
    have hc := Token.head_dropWhile h
    exact Or.inr ⟨c, trimEnd p rest, hc, trimEnd_cons hc rest⟩

theorem getLast?_trim {p : Char → Bool} {s : List Char} :
    ∀ c ∈ (trim p s).getLast?, p c = false := getLast?_trimEnd

theorem trim_trim (p : Char → Bool) (s : List Char) : trim p (trim p s) = trim p s := by
  rcases trim_cases p s with h | ⟨c, rest, hc, h⟩
  · rw [h, trim_nil]
  · rw [h, trim_cons hc, ← trimEnd_cons hc, ← h, trimEnd_eq_self getLast?_trim]

theorem trim_eq_self_of_ends {p : Char → Bool} {s : List Char}
    (hfront : ∀ c ∈ s.head?, p c = false) (hback : ∀ c ∈ s.getLast?, p c = false) :
    trim p s = s := by
  cases s with
  | nil => rfl
  | cons c rest =>
    have hc : p c = false := hfront c rfl
    rw [trim_cons hc, ← trimEnd_cons hc, trimEnd_eq_self hback]

theorem trim_eq_self {p : Char → Bool} {s : List Char} (h : ∀ c ∈ s, p c = false) :
    trim p s = s :=
  trim_eq_self_of_ends (fun c hc => h c (List.mem_of_head? hc))
    fun c hc => h c (List.mem_of_getLast? hc)

/-- Nothing is trimmed off a text between two characters that are not trimmed. -/
theorem trim_enclosed {p : Char → Bool} {c d : Char} (hc : p c = false) (hd : p d = false)
    (s : List Char) : trim p (c :: (s ++ [d])) = c :: (s ++ [d]) := by
  rw [trim_cons hc, trimEnd_eq_self]
  simpa using hd

theorem exists_trim_append (p : Char → Bool) (s : List Char) :
    ∃ front back, s = front ++ (trim p s ++ back) ∧ (∀ c ∈ front, p c = true) ∧
      ∀ c ∈ back, p c = true := by
  refine ⟨s.takeWhile p, ((s.dropWhile p).reverse.takeWhile p).reverse, ?_, ?_, ?_⟩
  · rw [trim, trimEnd, ← List.reverse_append, List.takeWhile_append_dropWhile, List.reverse_reverse,
      List.takeWhile_append_dropWhile]
  · exact fun c hc => List.mem_takeWhile_imp hc
  · exact fun c hc => List.mem_takeWhile_imp (List.mem_reverse.mp hc)

theorem trimEnd_append_of_pos {p : Char → Bool} {s back : List Char}
    (h : ∀ c ∈ back, p c = true) : trimEnd p (s ++ back) = trimEnd p s := by
  have hback : ∀ c ∈ back.reverse, p c = true := fun c hc => h c (List.mem_reverse.mp hc)
  rw [trimEnd, List.reverse_append, List.dropWhile_append_of_pos hback, trimEnd]

theorem trim_append_of_pos {p : Char → Bool} {front s back : List Char}
    (hfront : ∀ c ∈ front, p c = true) (hback : ∀ c ∈ back, p c = true) :
    trim p (front ++ (s ++ back)) = trim p s := by
  rw [trim, List.dropWhile_append_of_pos hfront, List.dropWhile_append]
  split
  · rename_i hs
    rw [List.dropWhile_eq_nil_iff.mpr hback, trim, List.isEmpty_iff.mp hs]
  · exact trimEnd_append_of_pos hback

/-- Trimming characters of a smaller class first makes no difference. -/
theorem trim_trim_of_imp {p q : Char → Bool} (h : ∀ c, p c = true → q c = true) (s : List Char) :
    trim q (trim p s) = trim q s := by
  obtain ⟨front, back, hs, hfront, hback⟩ := exists_trim_append p s
  conv_rhs => rw [hs]
  exact (trim_append_of_pos (fun c hc => h c (hfront c hc)) fun c hc => h c (hback c hc)).symm

theorem trim_ne_nil {p : Char → Bool} {s : List Char} (hne : s ≠ [])
    (h : ∀ c ∈ s.getLast?, p c = false) : trim p s ≠ [] := by
  intro he
  have hall : ∀ c ∈ s, p c = true := by
    intro c hc
    rw [← List.takeWhile_append_dropWhile (p := p) (l := s), List.mem_append] at hc
    rcases hc with hc | hc
    · exact List.mem_takeWhile_imp hc
    · exact List.rdropWhile_eq_nil_iff.mp he c hc
  have hlast := h _ (List.getLast?_eq_getLast_of_ne_nil hne)
  rw [hall _ (List.getLast_mem hne)] at hlast
  exact absurd hlast (by decide)

/-! ## Letters, digits and quotes -/

/-- Behind the space, the ASCII range has no blanks. -/
theorem isBlank_of_toNat {c : Char} (hfirst : 0x20 < c.toNat) (hlast : c.toNat < 0x80) :
    isBlank c = false := by
  simp only [isBlank, isWhiteSpace, whiteSpaceRanges, inRanges, List.any_cons, List.any_nil,
    Bool.or_false, Bool.or_eq_false_iff, Bool.and_eq_false_iff, decide_eq_false_iff_not]
  omega

theorem toNat_of_isAlphanum {c : Char} (h : c.isAlphanum = true) :
    0x20 < c.toNat ∧ c.toNat < 0x80 := by
  have hranges : (65 ≤ c.toNat ∧ c.toNat ≤ 90 ∨ 97 ≤ c.toNat ∧ c.toNat ≤ 122) ∨
      48 ≤ c.toNat ∧ c.toNat ≤ 57 := by
    simpa [Char.isAlphanum, Char.isAlpha, Char.isUpper, Char.isLower, Char.isDigit,
      UInt32.le_iff_toNat_le] using h
  omega

theorem isBlank_of_isQuote {c : Char} (h : isQuote c = true) : isBlank c = false := by
  have hquote : c = apostrophe ∨ c = quotationMark := by simpa [isQuote] using h
  rcases hquote with rfl | rfl <;> decide

/-- A quote is dropped at either end, and the two need not be the same. -/
theorem stripQuotes_enclosed {opening closing : Char} (ho : isQuote opening = true)
    (hc : isQuote closing = true) (s : List Char) :
    stripQuotes (opening :: (s ++ [closing])) = s := by
  simp [stripQuotes, ho, hc]

theorem stripQuotes_eq_self {s : List Char} (h : ∀ c ∈ s, isQuote c = false) :
    stripQuotes s = s := by
  have hhead : s.head?.any isQuote = false := by
    cases s with
    | nil => rfl
    | cons c s => exact h c (by simp)
  have hlast : s.getLast?.any isQuote = false := by
    cases hc : s.getLast? with
    | none => rfl
    | some c => exact h c (List.mem_of_getLast? hc)
  simp [stripQuotes, hhead, hlast]

theorem mem_of_mem_stripQuotes {s : List Char} {c : Char} (h : c ∈ stripQuotes s) : c ∈ s := by
  have hfront : ∀ d ∈ (if s.head?.any isQuote then s.tail else s), d ∈ s := by
    split
    · exact fun d => List.mem_of_mem_tail
    · exact fun d => id
  unfold stripQuotes at h
  generalize (if s.head?.any isQuote then s.tail else s) = front at h hfront
  dsimp only at h
  split at h
  · exact hfront c (List.mem_of_mem_dropLast h)
  · exact hfront c h

end Text

namespace Path
open Text

theorem dropSigil_suffix (s : List Char) (sigil : Char) : dropSigil s sigil <:+ s := by
  unfold dropSigil
  split
  · exact List.tail_suffix s
  · exact List.suffix_refl s

theorem normalize_suffix (path : List Char) : normalize path <:+ trim isBlank path :=
  (dropSigil_suffix _ '@').trans (dropSigil_suffix _ '$')

theorem trim_ne_nil_of_normalize {path : List Char} (h : normalize path ≠ []) :
    trim isBlank path ≠ [] := by
  intro ht
  have hs := normalize_suffix path
  rw [ht] at hs
  exact h (List.suffix_nil.mp hs)

theorem normalize_trim (path : List Char) : normalize (trim isBlank path) = normalize path := by
  rw [normalize, trim_trim, normalize]

theorem normalize_of_isSigil {path : List Char} (h : isSigil (trim isBlank path) = true) :
    normalize path = [] := by
  have hs : trim isBlank path = ['$'] ∨ trim isBlank path = ['@'] := by
    simpa [isSigil, sigils] using h
  rcases hs with hs | hs <;> simp [normalize, sigils, hs, dropSigil]

/-- What is left of a path without its sigils is blank only when it is empty. -/
theorem trim_normalize_ne_nil {path : List Char} (h : normalize path ≠ []) :
    trim isBlank (normalize path) ≠ [] := by
  apply trim_ne_nil h
  intro c hc
  obtain ⟨front, hf⟩ := normalize_suffix path
  refine getLast?_trim (s := path) c ?_
  rw [← hf, List.getLast?_append, Option.mem_def.mp hc]
  rfl

end Path
end PathQuery
