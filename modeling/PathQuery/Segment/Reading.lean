import PathQuery.Fault
import PathQuery.Segment.Classification
import PathQuery.Segment.Validation

/-! # Reading a token as a segment

A token is read with every conversion and every check on the way: a run of digits is converted when
it is too short to be replaced, and a position is validated like the field of any segment. Each of
these can refuse what it is given, and reading fails with the fault of the first that does. -/

namespace PathQuery.Segment
open Number Text

def isSign (c : Char) : Bool := c == '+' || c == '-'

def convertDigits (digits : List Char) : Except Fault Int :=
  match Number.readInteger? digits with
  | some n => .ok n
  | none => .error (.tooManyDigits digits.length)

/-- The integer of a run of digits with an optional sign, saturated. -/
def readRun (run : List Char) : Except Fault Int :=
  let negative : Bool := run.head? = some '-'
  let significant := (run.dropWhile isSign).dropWhile (· = '0')
  let digits := if significant.isEmpty then ['0'] else significant
  if saturationDigits ≤ digits.length then .ok (applySign negative largestWord)
  else (convertDigits digits).map fun n => if negative then -n else n

/-- The run of digits, with its sign, that a text begins with after blanks. -/
def leadingRun? (s : List Char) : Option (List Char) :=
  let rest := s.dropWhile isBlank
  let sign := (rest.head?.filter isSign).toList
  let digits := (rest.drop sign.length).takeWhile Char.isDigit
  if digits.isEmpty then none else some (sign ++ digits)

def readBound (s : List Char) : Except Fault (Option Int) :=
  if s.isEmpty then .ok none
  else
    match leadingRun? s with
    | none => .ok (some 0)
    | some run => (readRun run).map some

def ofPosition (position : Int) : Except Fault Segment :=
  match (natural (.valid position)).within "index" with
  | .valid n => .ok (index n)
  | .invalid issues => .error (.invalid issues)

def readContent (content : List Char) : Except Fault Segment :=
  if content = ['*'] then .ok wildcard
  else if isDigits content then do
    ofPosition (← readRun content)
  else if content.contains ':' then do
    let (start, stop) := splitColons content
    return slice (← readBound start) (← readBound stop)
  else if content.head? = some '?' then .ok (filter (String.ofList content))
  else .ok (key (String.ofList (stripQuotes content)))

def read : Token → Except Fault Segment
  | .dots name => .ok (recursive (String.ofList name))
  | .bracket content => readContent content
  | .dot name => .ok (if name = ['*'] then wildcard else child (String.ofList name))

end PathQuery.Segment
