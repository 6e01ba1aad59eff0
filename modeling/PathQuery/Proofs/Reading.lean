import Mathlib
import PathQuery.Proofs.Decimal
import PathQuery.Proofs.Scanning
import PathQuery.Proofs.Trimming

/-!
# Reading never fails

Every token that the scanner finds is read: a run of digits that is converted is shorter than any
limit on conversions, a position is not negative, and no token is of an unknown shape. What is read
is the plain classification `ofToken`.
-/
namespace PathQuery
namespace Number
open Text

theorem isAsciiBlank_of_isDigit {c : Char} (h : c.isDigit = true) : isAsciiBlank c = false :=
  isAsciiBlank_eq_false (isBlank_of_isDigit h)

theorem splitSign_of_head? {s : List Char} (h : ∀ c ∈ s.head?, c.isDigit = true) :
    splitSign s = (false, s) := by
  unfold splitSign
  split
  · exact absurd (h '-' rfl) (by decide)
  · exact absurd (h '+' rfl) (by decide)
  · rfl

theorem splitSign_digits {digits : List Char} (h : ∀ c ∈ digits, c.isDigit = true) :
    splitSign digits = (false, digits) :=
  splitSign_of_head? fun c hc => h c (List.mem_of_head? hc)

theorem mem_isDigit_of_isDigits {digits : List Char} (h : isDigits digits = true) :
    ∀ c ∈ digits, c.isDigit = true := by
  simp only [isDigits, Bool.and_eq_true, List.all_eq_true] at h
  exact h.2

theorem readInteger?_digits {digits : List Char} (h : isDigits digits = true)
    (hl : digits.length ≤ digitLimit) : readInteger? digits = some (digitsValue digits : Int) := by
  have hd := mem_isDigit_of_isDigits h
  have ht : trim isAsciiBlank digits = digits :=
    trim_eq_self fun c hc => isAsciiBlank_of_isDigit (hd c hc)
  simp only [readInteger?, ht, splitSign_digits hd, h, hl, and_self, if_true, applySign]
  rfl

end Number

namespace Segment
open Number Text

theorem isSign_of_isDigit {c : Char} (h : c.isDigit = true) : isSign c = false := by
  have hp : c ≠ '+' := by
    rintro rfl
    exact absurd h (by decide)
  have hm : c ≠ '-' := by
    rintro rfl
    exact absurd h (by decide)
  simp [isSign, hp, hm]

/-- A run that is converted is shorter than the limit on conversions. -/
theorem convertDigits_short {digits : List Char} (h : isDigits digits = true)
    (hl : digits.length < saturationDigits) : convertDigits digits = .ok (digitsValue digits) := by
  have hlimit : digits.length ≤ digitLimit := by
    simp only [saturationDigits, digitLimit] at hl ⊢
    omega
  rw [convertDigits, readInteger?_digits h hlimit]

theorem readRun_eq {run digits : List Char} {negative : Bool}
    (hn : run.head? = some '-' ↔ negative = true) (hr : run.dropWhile isSign = digits)
    (hd : ∀ c ∈ digits, c.isDigit = true) :
    readRun run = .ok (applySign negative (saturatedValue digits)) := by
  have hneg : decide (run.head? = some '-') = negative := by
    cases negative <;> simp [hn]
  have hsig : ∀ c ∈ digits.dropWhile (· = '0'), c.isDigit = true :=
    fun c hc => hd c ((List.dropWhile_suffix _).subset hc)
  simp only [readRun, saturatedValue, hneg, hr]
  generalize digits.dropWhile (· = '0') = significant at hsig
  cases significant with
  | nil => cases negative <;> decide
  | cons c rest =>
    by_cases hl : saturationDigits ≤ (c :: rest).length
    · simp only [List.isEmpty_cons, Bool.false_eq_true, if_false, hl, if_true]
    · have hdigits : isDigits (c :: rest) = true := by simpa [isDigits] using hsig
      simp only [List.isEmpty_cons, Bool.false_eq_true, if_false, hl,
        convertDigits_short hdigits (by omega), Except.map, applySign]

/-- The sign in front of a text is what `splitSign` takes off. -/
theorem sign_append_splitSign (s : List Char) :
    (s.head?.filter isSign).toList ++ (splitSign s).2 = s ∧
      ((s.head?.filter isSign).toList = [] ∧ (splitSign s).1 = false ∨
        (s.head?.filter isSign).toList = ['-'] ∧ (splitSign s).1 = true ∨
        (s.head?.filter isSign).toList = ['+'] ∧ (splitSign s).1 = false) := by
  unfold splitSign
  split
  · exact ⟨rfl, Or.inr (Or.inl ⟨rfl, rfl⟩)⟩
  · exact ⟨rfl, Or.inr (Or.inr ⟨rfl, rfl⟩)⟩
  · rename_i hm hp
    cases s with
    | nil => exact ⟨rfl, Or.inl ⟨rfl, rfl⟩⟩
    | cons c rest =>
      have hc : isSign c = false := by
        simp only [isSign, Bool.or_eq_false_iff, beq_eq_false_iff_ne]
        exact ⟨fun h => hp rest (h ▸ rfl), fun h => hm rest (h ▸ rfl)⟩
      simp [Option.filter, hc]

theorem dropWhile_isSign_append {sign digits : List Char}
    (hs : sign = [] ∨ sign = ['-'] ∨ sign = ['+']) (hd : ∀ c ∈ digits, c.isDigit = true) :
    (sign ++ digits).dropWhile isSign = digits := by
  have hdigits : digits.dropWhile isSign = digits := by
    cases digits with
    | nil => rfl
    | cons c rest => simp [isSign_of_isDigit (hd c (by simp))]
  rcases hs with rfl | rfl | rfl
  · exact hdigits
  · simpa [isSign] using hdigits
  · simpa [isSign] using hdigits

theorem readBound_eq (s : List Char) : readBound s = .ok (readBound? s) := by
  unfold readBound readBound?
  split
  · rfl
  · obtain ⟨happ, hcases⟩ := sign_append_splitSign (s.dropWhile isBlank)
    unfold leadingRun?
    generalize s.dropWhile isBlank = rest at happ hcases
    generalize hs : (rest.head?.filter isSign).toList = sign at happ hcases
    generalize splitSign rest = split at happ hcases
    obtain ⟨negative, tail⟩ := split
    have hdrop : rest.drop sign.length = tail := by
      rw [← happ, List.drop_left]
    have hd : ∀ c ∈ tail.takeWhile Char.isDigit, c.isDigit = true :=
      fun c hc => List.mem_takeWhile_imp hc
    simp only [hs, hdrop]
    generalize tail.takeWhile Char.isDigit = digits at hd
    cases digits with
    | nil => cases negative <;> rfl
    | cons c digits =>
      have hc : c ≠ '-' := by
        rintro rfl
        exact absurd (hd '-' (by simp)) (by decide)
      have hneg : (sign ++ c :: digits).head? = some '-' ↔ negative = true := by
        rcases hcases with ⟨rfl, rfl⟩ | ⟨rfl, rfl⟩ | ⟨rfl, rfl⟩ <;> simp [hc]
      have hsign : sign = [] ∨ sign = ['-'] ∨ sign = ['+'] := by
        rcases hcases with ⟨h, -⟩ | ⟨h, -⟩ | ⟨h, -⟩ <;> simp [h]
      simp [readRun_eq hneg (dropWhile_isSign_append hsign hd) hd, Except.map]

theorem ofPosition_natCast (n : Nat) : ofPosition n = .ok (index n) := by
  have hn : ¬ (n : Int) < 0 := by omega
  simp only [ofPosition, natural, hn, if_false, Checked.within, Int.toNat_natCast]

theorem readContent_eq (content : List Char) : readContent content = .ok (ofContent content) := by
  unfold readContent ofContent
  split
  · rfl
  · split
    · rename_i hdigits
      have hd := mem_isDigit_of_isDigits hdigits
      have hneg : content.head? = some '-' ↔ false = true := by
        constructor
        · intro h
          exact absurd (hd '-' (List.mem_of_head? h)) (by decide)
        · simp
      have hr := readRun_eq hneg (dropWhile_isSign_append (Or.inl rfl) hd) hd
      simp only [hr, applySign, bind, Except.bind, Bool.false_eq_true, if_false]
      exact ofPosition_natCast _
    · split
      · simp [readBound_eq, bind, Except.bind, pure, Except.pure]
      · split <;> rfl

theorem read_eq (t : Token) : read t = .ok (ofToken t) := by
  cases t with
  | bracket content => exact readContent_eq content
  | dots name => rfl
  | dot name => rfl

end Segment

theorem Token.ofText?_text {t : Token} (h : t.WellFormed) : ofText? t.text = some t := by
  cases t with
  | bracket content => simp [text, ofText?]
  | dots name => rfl
  | dot name =>
    cases name with
    | nil => exact absurd rfl h.1
    | cons c name =>
      have hc : c ≠ '.' := (isNameChar_eq_true.mp (IsName.isNameChar h c (by simp))).1
      simp [text, ofText?, hc]

theorem mapM_ok {α β ε : Type} {f : α → Except ε β} {g : α → β} {xs : List α}
    (h : ∀ x ∈ xs, f x = .ok (g x)) : xs.mapM f = .ok (xs.map g) := by
  induction xs with
  | nil => rfl
  | cons x xs ih =>
    rw [List.mapM_cons, h x (by simp), ih fun y hy => h y (by simp [hy])]
    rfl

namespace Path

/-- The segments of a normalized path, by the plain classification of its tokens. -/
def segments (normalized : List Char) : List Segment :=
  (Token.scan normalized).map Segment.ofToken

theorem parse_eq (normalized : List Char) : parse normalized = .ok (segments normalized) := by
  apply mapM_ok
  intro t ht
  have hw := Token.wellFormed_of_mem_scan t ht
  simp only [readSegment, String.toList_ofList, Token.ofText?_text hw, Segment.read_eq]

theorem segments_eq_nil {normalized : List Char} :
    segments normalized = [] ↔ Token.scan normalized = [] := List.map_eq_nil_iff

end Path
end PathQuery
