import Mathlib
import PathQuery.Proofs.RoundTrip

/-!
# Integers in brackets

An index and the bounds of a slice may be written with any number of digits. One that is too long is
replaced, at first by the largest word and then, as a position, by the length of the sequence; no
sequence is so long that this could be told from the integer as it is written.
-/
namespace PathQuery

/-- The members whose positions lie from one integer up to another, in order. -/
def Value.between (first last : ℤ) (items : List Value) : List Value :=
  (items.zipIdx.filter fun e => max first 0 ≤ (e.2 : ℤ) ∧ (e.2 : ℤ) < max last 0).map Prod.fst

namespace Segment
open Number Text

/-- A text that begins with an integer: blanks, a sign or none, and the longest run of digits. -/
structure Leads (s blanks sign digits rest : List Char) : Prop where
  text_eq : s = blanks ++ (sign ++ (digits ++ rest))
  blanks_run : ∀ c ∈ blanks, isBlank c = true
  sign_mem : sign = [] ∨ sign = ['+'] ∨ sign = ['-']
  digits_ne_nil : digits ≠ []
  digits_run : ∀ c ∈ digits, c.isDigit = true
  digits_longest : ∀ c ∈ rest.head?, c.isDigit = false

/-- The integer that digits write out behind a sign. -/
def signedValue (sign digits : List Char) : ℤ :=
  if sign = ['-'] then -(Nat.ofDigitChars 10 digits 0 : ℤ) else Nat.ofDigitChars 10 digits 0

/-- What a text stands for as a bound: a given integer when the text is empty, else the integer in
front of it, or zero when there is none. -/
inductive Denotes (absent : ℤ) : List Char → ℤ → Prop
  | empty : Denotes absent [] absent
  | integer {s blanks sign digits rest : List Char} (h : Leads s blanks sign digits rest) :
      Denotes absent s (signedValue sign digits)
  | other {s : List Char} (hne : s ≠ [])
      (hnone : ∀ blanks sign digits rest, ¬ Leads s blanks sign digits rest) : Denotes absent s 0

/-! ## The integer in front of a text -/

/-- Whether a minus sign stands in front of a text after blanks, and the digits behind the sign. -/
def signAndDigits (s : List Char) : Bool × List Char :=
  let (negative, rest) := splitSign (s.dropWhile isBlank)
  (negative, rest.takeWhile Char.isDigit)

theorem readBound?_eq_signAndDigits {s : List Char} (h : s ≠ []) :
    readBound? s =
      some (applySign (signAndDigits s).1 (saturatedValue (signAndDigits s).2)) := by
  rw [readBound?, if_neg (by simpa using h)]
  rfl

theorem isDigit_of_mem_signAndDigits {s : List Char} :
    ∀ c ∈ (signAndDigits s).2, c.isDigit = true := fun _ hc => List.mem_takeWhile_imp hc

theorem signedValue_eq (sign digits : List Char) :
    signedValue sign digits = applySign (decide (sign = ['-'])) (digitsValue digits) := by
  rw [signedValue, applySign, digitsValue_eq_ofDigitChars]
  simp only [decide_eq_true_eq]

theorem splitSign_append {sign rest : List Char} (hs : sign = [] ∨ sign = ['+'] ∨ sign = ['-'])
    (hd : ∀ c ∈ rest.head?, c.isDigit = true) :
    splitSign (sign ++ rest) = (decide (sign = ['-']), rest) := by
  rcases hs with rfl | rfl | rfl
  · exact splitSign_of_head? hd
  · rfl
  · rfl

/-- Every text is a sign or none with the rest behind it, as it is taken apart. -/
theorem exists_sign_append (s : List Char) :
    ∃ sign, sign ++ (splitSign s).2 = s ∧ (sign = [] ∨ sign = ['+'] ∨ sign = ['-']) ∧
      (splitSign s).1 = decide (sign = ['-']) := by
  obtain ⟨happ, hcases⟩ := sign_append_splitSign s
  refine ⟨_, happ, ?_, ?_⟩
  · rcases hcases with ⟨h, -⟩ | ⟨h, -⟩ | ⟨h, -⟩ <;> simp [h]
  · rcases hcases with ⟨h, hn⟩ | ⟨h, hn⟩ | ⟨h, hn⟩ <;> simp [h, hn]

/-- Blanks, signs and digits are told apart by their first characters, so an integer in front of a
text is found whole. -/
theorem Leads.signAndDigits_eq {s blanks sign digits rest : List Char}
    (h : Leads s blanks sign digits rest) :
    signAndDigits s = (decide (sign = ['-']), digits) := by
  obtain ⟨c, tail, hcons⟩ := List.exists_cons_of_ne_nil h.digits_ne_nil
  have hc : c.isDigit = true := h.digits_run c (by simp [hcons])
  have hblank : ∀ d ∈ (sign ++ (digits ++ rest)).head?, isBlank d = false := by
    have hsigns : isBlank '+' = false ∧ isBlank '-' = false := by decide
    rcases h.sign_mem with rfl | rfl | rfl
    · simpa [hcons] using isBlank_of_isDigit hc
    · simpa using hsigns.1
    · simpa using hsigns.2
  have hdrop : s.dropWhile isBlank = sign ++ (digits ++ rest) := by
    rw [h.text_eq]
    exact (takeWhile_of_longest h.blanks_run hblank).2
  have hsplit : splitSign (sign ++ (digits ++ rest)) = (decide (sign = ['-']), digits ++ rest) :=
    splitSign_append h.sign_mem (by simpa [hcons] using hc)
  have htake : (digits ++ rest).takeWhile Char.isDigit = digits :=
    (takeWhile_of_longest h.digits_run h.digits_longest).1
  simp only [signAndDigits, hdrop, hsplit, htake]

theorem exists_leads {s : List Char} (h : (signAndDigits s).2 ≠ []) :
    ∃ blanks sign rest, Leads s blanks sign (signAndDigits s).2 rest ∧
      (signAndDigits s).1 = decide (sign = ['-']) := by
  obtain ⟨sign, happ, hsign, hnegative⟩ := exists_sign_append (s.dropWhile isBlank)
  refine ⟨s.takeWhile isBlank, sign,
    (splitSign (s.dropWhile isBlank)).2.dropWhile Char.isDigit, ?_, hnegative⟩
  constructor
  case text_eq =>
    change s = s.takeWhile isBlank ++ (sign ++
      ((splitSign (s.dropWhile isBlank)).2.takeWhile Char.isDigit ++ _))
    rw [List.takeWhile_append_dropWhile, happ, List.takeWhile_append_dropWhile]
  case blanks_run => exact fun c hc => List.mem_takeWhile_imp hc
  case sign_mem => exact hsign
  case digits_ne_nil => exact h
  case digits_run => exact isDigit_of_mem_signAndDigits
  case digits_longest => exact eq_false_of_mem_head?_dropWhile _ _

theorem digits_eq_nil_iff {s : List Char} :
    (signAndDigits s).2 = [] ↔ ∀ blanks sign digits rest, ¬ Leads s blanks sign digits rest := by
  constructor
  · intro hnil blanks sign digits rest h
    exact h.digits_ne_nil ((congrArg Prod.snd h.signAndDigits_eq).symm.trans hnil)
  · intro hnone
    by_contra hdigits
    obtain ⟨blanks, sign, rest, h, -⟩ := exists_leads hdigits
    exact hnone _ _ _ _ h

theorem applySign_digitsValue_nil (negative : Bool) : applySign negative (digitsValue []) = 0 := by
  cases negative <;> rfl

/-- Every text denotes one bound, and all that reading it changes is to replace long integers. -/
theorem denotes_iff {absent n : ℤ} {s : List Char} :
    Denotes absent s n ↔ n = if s = [] then absent
      else applySign (signAndDigits s).1 (digitsValue (signAndDigits s).2) := by
  constructor
  · intro h
    cases h with
    | empty => rfl
    | integer h =>
      have hne : s ≠ [] := by
        rintro rfl
        exact h.digits_ne_nil (congrArg Prod.snd h.signAndDigits_eq).symm
      rw [if_neg hne, h.signAndDigits_eq, signedValue_eq]
    | other hne hnone =>
      rw [if_neg hne, digits_eq_nil_iff.mpr hnone, applySign_digitsValue_nil]
  · rintro rfl
    split
    · rename_i hs
      rw [hs]
      exact .empty
    · rename_i hne
      -- No digits are worth zero with either sign, as a text without an integer is.
      by_cases hdigits : (signAndDigits s).2 = []
      · rw [hdigits, applySign_digitsValue_nil]
        exact .other hne (digits_eq_nil_iff.mp hdigits)
      · obtain ⟨blanks, sign, rest, h, hsign⟩ := exists_leads hdigits
        rw [hsign, ← signedValue_eq]
        exact .integer h

theorem existsUnique_denotes (absent : ℤ) (s : List Char) : ∃! n, Denotes absent s n :=
  ⟨_, denotes_iff.mpr rfl, fun _ h => denotes_iff.mp h⟩

/-! ## Replaced integers as positions -/

theorem max_replaced_le_iff {digits : List Char} (hd : ∀ c ∈ digits, c.isDigit = true)
    (negative : Bool) {i : ℕ} (hi : i < 10 ^ 18) :
    max (applySign negative (saturatedValue digits)) 0 ≤ (i : ℤ) ↔
      max (applySign negative (digitsValue digits)) 0 ≤ (i : ℤ) := by
  rcases saturatedValue_cases hd with h | ⟨hs, hv⟩
  · rw [h]
  · cases negative with
    | true => simp only [applySign, if_true]; omega
    | false => simp only [applySign, Bool.false_eq_true, if_false]; omega

/-- At a position in reach, the bound that is read and the bound that is denoted are on one side. -/
theorem max_readBound?_le_iff {absent n : ℤ} {s : List Char} (h : Denotes absent s n) {i : ℕ}
    (hi : i < 10 ^ 18) : max ((readBound? s).getD absent) 0 ≤ (i : ℤ) ↔ max n 0 ≤ (i : ℤ) := by
  rw [denotes_iff.mp h]
  by_cases hs : s = []
  · rw [if_pos hs, hs]
    rfl
  · rw [if_neg hs, readBound?_eq_signAndDigits hs]
    exact max_replaced_le_iff isDigit_of_mem_signAndDigits _ hi

end Segment

namespace Value

/-- Positions before the first and from the last on are dropped, and all between them stay. -/
theorem drop_take_eq_filter (items : List Value) (first last : ℕ) :
    (items.take last).drop first =
      (items.zipIdx.filter fun e => first ≤ e.2 ∧ e.2 < last).map Prod.fst := by
  generalize hbefore : (items.take last).take first = before
  generalize hinside : (items.take last).drop first = inside
  generalize hbehind : items.drop last = behind
  have hitems : items = before ++ (inside ++ behind) := by
    rw [← List.append_assoc, ← hbefore, ← hinside, ← hbehind, List.take_append_drop,
      List.take_append_drop]
  have hbefore := congrArg List.length hbefore
  have hinside := congrArg List.length hinside
  have hbehind := congrArg List.length hbehind
  simp only [List.length_take, List.length_drop] at hbefore hinside hbehind
  have hfront : (before.zipIdx.filter fun e => first ≤ e.2 ∧ e.2 < last) = [] := by
    rw [List.filter_eq_nil_iff]
    intro e he
    have := List.snd_lt_of_mem_zipIdx he
    simp only [decide_eq_true_eq]
    omega
  have hall : ((inside.zipIdx before.length).filter fun e => first ≤ e.2 ∧ e.2 < last) =
      inside.zipIdx before.length := by
    rw [List.filter_eq_self]
    intro e he
    have := List.le_snd_of_mem_zipIdx he
    have := List.snd_lt_of_mem_zipIdx he
    simp only [decide_eq_true_eq]
    omega
  have hback : ((behind.zipIdx (before.length + inside.length)).filter
      fun e => first ≤ e.2 ∧ e.2 < last) = [] := by
    rw [List.filter_eq_nil_iff]
    intro e he
    have := List.le_snd_of_mem_zipIdx he
    have := List.snd_lt_of_mem_zipIdx he
    simp only [decide_eq_true_eq]
    omega
  rw [hitems, List.zipIdx_append, List.zipIdx_append, List.filter_append, List.filter_append,
    Nat.zero_add, hfront, hall, hback, List.nil_append, List.append_nil, List.zipIdx_map_fst]

theorem slice_eq_between (start stop : Option ℤ) (items : List Value) :
    slice start stop items = between (start.getD 0) (stop.getD items.length) items := by
  have hlast : (stop.map Int.toNat).getD items.length = (stop.getD items.length).toNat := by
    cases stop <;> simp
  rw [slice, hlast, drop_take_eq_filter, between]
  refine congrArg _ (List.filter_congr fun e _ => decide_eq_decide.mpr ?_)
  omega

theorem between_congr {items : List Value} {a b a' b' : ℤ}
    (ha : ∀ i < items.length, max a 0 ≤ (i : ℤ) ↔ max a' 0 ≤ (i : ℤ))
    (hb : ∀ i < items.length, max b 0 ≤ (i : ℤ) ↔ max b' 0 ≤ (i : ℤ)) :
    between a b items = between a' b' items := by
  refine congrArg _ (List.filter_congr fun e he => decide_eq_decide.mpr ?_)
  have hi : e.2 < items.length := by simpa using List.snd_lt_of_mem_zipIdx he
  rw [ha e.2 hi, ← not_le, hb e.2 hi, not_le]

end Value

namespace Segment
open Number

theorem getElem?_saturatedValue {items : List Value} (hlength : items.length < 10 ^ 18)
    {digits : List Char} (hd : ∀ c ∈ digits, c.isDigit = true) :
    items[saturatedValue digits]? = items[digitsValue digits]? := by
  rcases saturatedValue_cases hd with h | ⟨hs, hv⟩
  · rw [h]
  · rw [List.getElem?_eq_none (by omega), List.getElem?_eq_none (by omega)]

theorem slice_readBound? {items : List Value} (hlength : items.length < 10 ^ 18)
    {first last : List Char} {a b : ℤ} (ha : Denotes 0 first a) (hb : Denotes items.length last b) :
    Value.slice (readBound? first) (readBound? last) items = Value.between a b items := by
  rw [Value.slice_eq_between]
  refine Value.between_congr ?_ ?_
  · exact fun i hi => max_readBound?_le_iff ha (hi.trans hlength)
  · exact fun i hi => max_readBound?_le_iff hb (hi.trans hlength)

theorem readSegment_bracket (content : String) :
    Path.readSegment ("[" ++ content ++ "]") = .ok (ofContent content.toList) := by
  have htoken : Token.ofText? ("[" ++ content ++ "]").toList = some (.bracket content.toList) := by
    simp [Token.ofText?]
  rw [Path.readSegment, htoken]
  exact read_eq (.bracket content.toList)

/-- Digits in brackets select the member at the position that they write out, and bounds select the
members between the integers in front of them, however many digits are written. The bounds may be
followed by a colon and anything else. -/
theorem bracket_integers_exact :
    (∀ digits : String, digits ≠ "" → (∀ c ∈ digits.toList, c.isDigit = true) →
      ∃ s, Path.readSegment ("[" ++ digits ++ "]") = .ok s ∧
        ∀ v : Value, v.members.length < 10 ^ 18 →
          (s.select v).value = v.members[Nat.ofDigitChars 10 digits.toList 0]?.toList) ∧
    (∀ first last rest : String, ':' ∉ first.toList → ':' ∉ last.toList →
      rest = "" ∨ rest.toList.head? = some ':' →
      ∃ s, Path.readSegment ("[" ++ (first ++ ":" ++ last ++ rest) ++ "]") = .ok s ∧
        ∀ v : Value, v.members.length < 10 ^ 18 → ∀ a b : ℤ,
          Denotes 0 first.toList a → Denotes v.members.length last.toList b →
          (s.select v).value = Value.between a b v.members) ∧
    ∀ (absent : ℤ) (text : String), ∃! n, Denotes absent text.toList n := by
  refine ⟨?_, ?_, fun absent text => existsUnique_denotes absent text.toList⟩
  · intro digits hne hd
    refine ⟨_, readSegment_bracket digits, fun v hlength => ?_⟩
    have hdigits : isDigits digits.toList = true := by
      simpa [isDigits, hne] using hd
    rw [ofContent_digits hdigits, ← digitsValue_eq_ofDigitChars]
    exact congrArg Option.toList (getElem?_saturatedValue hlength hd)
  · intro first last rest hfirst hlast hrest
    refine ⟨_, readSegment_bracket _, fun v hlength a b ha hb => ?_⟩
    have hend : ∀ c ∈ rest.toList.head?, c = ':' := by
      rcases hrest with rfl | hhead
      · simp
      · simp [hhead]
    have hcontent : (first ++ ":" ++ last ++ rest).toList =
        first.toList ++ ':' :: (last.toList ++ rest.toList) := by simp
    rw [hcontent, ofContent_colon (by simp), splitColons_append_append hfirst hlast hend]
    exact slice_readBound? hlength ha hb

/-- Zeros in front, a blank, a sign, text behind the digits and more digits than a word holds. -/
theorem bracket_integers_exact_long :
    let digits := "0000000000000000000000002"
    let last := "99999999999999999999"
    let v := Value.tuple [.int 10, .int 20, .int 30]
    digits ≠ "" ∧ (∀ c ∈ digits.toList, c.isDigit = true) ∧ v.members.length < 10 ^ 18 ∧
    (∃ s, Path.readSegment ("[" ++ digits ++ "]") = .ok s ∧ (s.select v).value = [.int 30]) ∧
    ':' ∉ " +1x".toList ∧ ':' ∉ last.toList ∧ ":-1".toList.head? = some ':' ∧
    Denotes 0 " +1x".toList 1 ∧ Denotes v.members.length last.toList 99999999999999999999 ∧
    ∃ s, Path.readSegment ("[" ++ (" +1x" ++ ":" ++ last ++ ":-1") ++ "]") = .ok s ∧
      (s.select v).value = [.int 20, .int 30] := by
  intro digits last v
  have hne : digits ≠ "" := by decide
  have hd : ∀ c ∈ digits.toList, c.isDigit = true := by simp [digits]
  have hlength : v.members.length < 10 ^ 18 := by decide
  have hfirst : ':' ∉ " +1x".toList := by decide +kernel
  have hlast : ':' ∉ last.toList := by decide +kernel
  have hrest : ":-1".toList.head? = some ':' := by decide +kernel
  have ha : Denotes 0 " +1x".toList 1 := denotes_iff.mpr (by decide +kernel)
  have hb : Denotes v.members.length last.toList 99999999999999999999 :=
    denotes_iff.mpr (by decide +kernel)
  obtain ⟨hindex, hslice, -⟩ := bracket_integers_exact
  obtain ⟨s, hs, hselect⟩ := hindex digits hne hd
  obtain ⟨t, ht, hbetween⟩ := hslice " +1x" last ":-1" hfirst hlast (Or.inr hrest)
  refine ⟨hne, hd, hlength, ⟨s, hs, ?_⟩, hfirst, hlast, hrest, ha, hb, t, ht, ?_⟩
  · rw [hselect v hlength]
    decide +kernel
  · rw [hbetween v hlength 1 _ ha hb]
    decide +kernel

end Segment
end PathQuery
