import PathQuery.Issue
import PathQuery.Number.Reader
import PathQuery.Text.Blank

/-! # Integers written as text

The text of an integer field may have white space round it, a plus sign, zeros in front, single
underscores between digits and a fraction of zeros. Each rule removes one of these, and `plain?`
reads what is left: an optional minus sign and digits. A text that begins as a plain integer of more
characters than `sizeLimit` is refused as oversized; one that becomes so long only after blanks or
other additions are removed cannot be read. -/

namespace PathQuery.Segment.IntegerText
open Number

def sizeLimit : Nat := 4300

def dropMinus : List Char → List Char
  | '-' :: s => s
  | s => s

def isNonzeroDigit (c : Char) : Bool := c.isDigit && c != '0'

/-- Whether a text begins with an integer without zeros in front that is longer than the limit, its
sign included. -/
def isOversized (s : List Char) : Bool :=
  let unsigned := dropMinus s
  unsigned.head?.any isNonzeroDigit &&
    sizeLimit < s.length - (unsigned.dropWhile Char.isDigit).length

def dropPlus? : List Char → Option (List Char)
  | '+' :: '-' :: _ => none
  | '+' :: s => some s
  | s => some s

def isZeroOrSeparator (c : Char) : Bool := c == '0' || c == '_'

def startsInteger (c : Char) : Bool := isNonzeroDigit c || c == '-'

/-- Drop zeros and separators in front, also in front of a minus sign. When no other digit follows,
their last one is kept. -/
def dropZeros? : List Char → Option (List Char)
  | [] => none
  | c :: s =>
    if c = '0' then
      let kept := ('0' :: s.takeWhile isZeroOrSeparator).getLast?.toList
      match s.dropWhile isZeroOrSeparator with
      | [] => some kept
      | d :: rest =>
        if d = '.' then some (kept ++ d :: rest)
        else if startsInteger d then some (d :: rest)
        else none
    else if startsInteger c then some (c :: s)
    else none

/-- Drop the first point when one or more zeros and nothing else follow it. -/
def dropFraction (s : List Char) : List Char :=
  let fraction := (s.dropWhile (· != '.')).drop 1
  if !fraction.isEmpty && fraction.all (· == '0') then s.takeWhile (· != '.') else s

/-- Drop separators, each of which has to stand between two digits. The flag says whether a digit
stands in front of the text. -/
def dropSeparators? (afterDigit : Bool) : List Char → Option (List Char)
  | [] => some []
  | c :: s =>
    if c = '_' then
      if afterDigit && s.head?.any Char.isDigit then dropSeparators? false s else none
    else (dropSeparators? c.isDigit s).map (c :: ·)

def plain? (s : List Char) : Option Int :=
  let digits := dropMinus s
  if isDigits digits ∧ s.length ≤ sizeLimit then
    some (applySign (s.head? = some '-') (digitsValue digits))
  else none

def read? (s : List Char) : Option Int := do
  let unsigned ← dropPlus? (Text.trim Text.isWhiteSpace s)
  let significant ← dropZeros? unsigned
  let digits ← dropSeparators? false (dropFraction significant)
  plain? digits

def read (s : List Char) : Except Complaint Int :=
  if isOversized s then .error .oversizedInteger
  else
    match read? s with
    | some n => .ok n
    | none => .error .unreadableInteger

end PathQuery.Segment.IntegerText
