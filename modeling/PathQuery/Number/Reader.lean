import PathQuery.Binary64.Rounding
import PathQuery.Number
import PathQuery.Text.Blank

/-! # Reading numbers

`read?` reads a text that is a number and nothing else, apart from blanks of the ASCII range at both
ends. An integer has an optional sign and at most `digitLimit` digits. Every other number is a
floating-point number: a decimal with an optional point and an optional exponent, or a word for
infinity. The word for the number that is none, digit separators and digits of other scripts are not
read. -/

namespace PathQuery.Number

/-- Longer runs of digits are read as floating-point numbers. -/
def digitLimit : Nat := 4300

def digitsValue (digits : List Char) : Nat :=
  digits.foldl (fun n c => 10 * n + (c.toNat - 48)) 0

def splitSign : List Char → Bool × List Char
  | '-' :: s => (true, s)
  | '+' :: s => (false, s)
  | s => (false, s)

def applySign (negative : Bool) (n : Nat) : Int := if negative then -(n : Int) else n

def isDigits (s : List Char) : Bool := !s.isEmpty && s.all Char.isDigit

def readInteger? (s : List Char) : Option Int :=
  let (negative, digits) := splitSign (Text.trim Text.isAsciiBlank s)
  if isDigits digits ∧ digits.length ≤ digitLimit then
    some (applySign negative (digitsValue digits))
  else none

/-- The power of ten that an exponent part stands for; the empty one is zero. -/
def readExponent? : List Char → Option Int
  | [] => some 0
  | c :: s =>
    let (negative, digits) := splitSign s
    if (c = 'e' ∨ c = 'E') ∧ isDigits digits then some (applySign negative (digitsValue digits))
    else none

/-- The digits after a decimal point, and what follows them. -/
def splitFraction : List Char → List Char × List Char
  | '.' :: s => (s.takeWhile Char.isDigit, s.dropWhile Char.isDigit)
  | s => ([], s)

/-- An unsigned decimal as digits and a power of ten. -/
def readDecimal? (s : List Char) : Option (Nat × Int) :=
  let whole := s.takeWhile Char.isDigit
  let (fraction, rest) := splitFraction (s.dropWhile Char.isDigit)
  let digits := whole ++ fraction
  if digits.isEmpty then none
  else (readExponent? rest).map fun e => (digitsValue digits, e - fraction.length)

def infinityWords : List (List Char) :=
  [['i', 'n', 'f'], ['i', 'n', 'f', 'i', 'n', 'i', 't', 'y']]

def readFloat? (s : List Char) : Option Binary64 :=
  let (negative, body) := splitSign (Text.trim Text.isAsciiBlank s)
  if body.map Char.toLower ∈ infinityWords then some (.infinite negative)
  else (readDecimal? body).map fun d => Binary64.ofDecimal negative d.1 d.2

def read? (s : List Char) : Option Number :=
  match readInteger? s with
  | some n => some (int n)
  | none => (readFloat? s).map float

end PathQuery.Number
