import PathQuery.Segment.IntegerText
import PathQuery.Text.Digit

/-! # Converting a text to a number

A text is converted to a floating-point number when it holds a point or an exponent mark, else to an
integer, and after a refusal once more to a floating-point number. The conversions take more than is
read as a number: digits of every script, separators between digits, and the word for the number
that is none. So a text with a separator or a character outside the ASCII range is not converted at
all, and the number that is none is passed over after the last conversion. -/

namespace PathQuery.Number
open Text

/-- The conversion that refuses a text. -/
inductive Refusal
  | notAnInteger
  | notAFloat
  deriving DecidableEq, Repr

/-- The text that a conversion reads: in the ASCII range as far as it has characters for it, and
without separators, each of which has to stand between two digits. -/
def legible? (s : List Char) : Option (List Char) :=
  Segment.IntegerText.dropSeparators? false (s.map plain)

/-- Convert a text by the reader of what it is converted to. -/
def convertBy {α : Type} (read : List Char → Option α) (refusal : Refusal) (s : List Char) :
    Except Refusal α :=
  match (legible? s).bind read with
  | some a => .ok a
  | none => .error refusal

def convertInteger (s : List Char) : Except Refusal Int := convertBy readInteger? .notAnInteger s

/-- What stands between the blanks, behind a sign. -/
def unsigned (s : List Char) : List Char := (splitSign (trim isAsciiBlank s)).2

def undefinedWord : List Char := ['n', 'a', 'n']

def readFloatOrUndefined? (s : List Char) : Option Binary64 :=
  if (unsigned s).map Char.toLower = undefinedWord then some .nan else readFloat? s

def convertFloat (s : List Char) : Except Refusal Binary64 :=
  convertBy readFloatOrUndefined? .notAFloat s

/-- The point and the two exponent marks, which no integer holds. -/
def isMark (c : Char) : Bool := c == '.' || c == 'e' || c == 'E'

def convertFirst (s : List Char) : Except Refusal Number :=
  if s.any isMark then (convertFloat s).map float else (convertInteger s).map int

/-- The conversion after a refusal. The number that is none counts as no number. -/
def convertAgain (s : List Char) : Except Refusal (Option Number) :=
  tryCatch ((convertFloat s).map fun x => if x = .nan then none else some (float x))
    fun _ => .ok none

def convert (s : List Char) : Except Refusal (Option Number) :=
  if s.isEmpty || !s.all isAscii || s.contains '_' then .ok none
  else tryCatch ((convertFirst s).map some) fun _ => convertAgain s

end PathQuery.Number
