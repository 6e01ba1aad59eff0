/-! # Blank characters and trimming

Three classes of blank characters occur in path text. `isWhiteSpace` is the property White_Space of
the character database, `isBlank` adds the four information separators to it, and `isAsciiBlank` is
the space with the five layout controls. Texts are lists of characters. -/

namespace PathQuery.Text

/-- Ranges of code points, both ends included. -/
def inRanges (ranges : List (Nat × Nat)) (c : Char) : Bool :=
  ranges.any fun r => r.1 ≤ c.toNat && c.toNat ≤ r.2

def whiteSpaceRanges : List (Nat × Nat) :=
  [(0x09, 0x0d), (0x20, 0x20), (0x85, 0x85), (0xa0, 0xa0), (0x1680, 0x1680), (0x2000, 0x200a),
    (0x2028, 0x2029), (0x202f, 0x202f), (0x205f, 0x205f), (0x3000, 0x3000)]

def isWhiteSpace (c : Char) : Bool := inRanges whiteSpaceRanges c

/-- White space and the information separators U+001C to U+001F. -/
def isBlank (c : Char) : Bool := isWhiteSpace c || inRanges [(0x1c, 0x1f)] c

def isAsciiBlank (c : Char) : Bool := inRanges [(0x09, 0x0d), (0x20, 0x20)] c

/-- A blank that does not end a line. -/
def isInlineBlank (c : Char) : Bool := isBlank c && c != '\n' && c != '\r'

def trimEnd (p : Char → Bool) (s : List Char) : List Char := (s.reverse.dropWhile p).reverse

def trim (p : Char → Bool) (s : List Char) : List Char := trimEnd p (s.dropWhile p)

theorem isBlank_of_isWhiteSpace {c : Char} (h : isWhiteSpace c = true) : isBlank c = true := by
  simp [isBlank, h]

theorem isWhiteSpace_of_isAsciiBlank {c : Char} (h : isAsciiBlank c = true) :
    isWhiteSpace c = true := by
  simp only [isAsciiBlank, isWhiteSpace, inRanges, whiteSpaceRanges, List.any_cons, List.any_nil,
    Bool.or_false, Bool.or_eq_true, Bool.and_eq_true, decide_eq_true_eq] at h ⊢
  omega

theorem isBlank_of_isAsciiBlank {c : Char} (h : isAsciiBlank c = true) : isBlank c = true :=
  isBlank_of_isWhiteSpace (isWhiteSpace_of_isAsciiBlank h)

theorem isAsciiBlank_eq_false {c : Char} (h : isBlank c = false) : isAsciiBlank c = false := by
  cases hb : isAsciiBlank c with
  | false => rfl
  | true => rw [← h, isBlank_of_isAsciiBlank hb]

theorem trim_nil (p : Char → Bool) : trim p [] = [] := rfl

end PathQuery.Text
