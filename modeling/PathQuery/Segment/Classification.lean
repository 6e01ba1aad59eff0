import PathQuery.Number.Reader
import PathQuery.Segment
import PathQuery.Text.Quoted
import PathQuery.Token

/-! # From tokens to segments

Every token is a segment. Content in brackets is tried in order as a star, an index, a slice, a
filter and a key. An integer of `saturationDigits` significant digits or more is replaced by the
largest word of 63 bits, past the end of every sequence. -/

namespace PathQuery.Segment
open Number Text

def saturationDigits : Nat := 19

def largestWord : Nat := 0x7fffffffffffffff

def saturatedValue (digits : List Char) : Nat :=
  let significant := digits.dropWhile (· = '0')
  if saturationDigits ≤ significant.length then largestWord else digitsValue significant

/-- A slice bound: absent when empty, zero when no integer stands in front. -/
def readBound? (s : List Char) : Option Int :=
  if s.isEmpty then none
  else
    let (negative, rest) := splitSign (s.dropWhile isBlank)
    some (applySign negative (saturatedValue (rest.takeWhile Char.isDigit)))

/-- The parts of a text before the first colon and between the first two. -/
def splitColons (s : List Char) : List Char × List Char :=
  (s.takeWhile (· != ':'), ((s.dropWhile (· != ':')).drop 1).takeWhile (· != ':'))

def ofContent (content : List Char) : Segment :=
  if content = ['*'] then wildcard
  else if isDigits content then index (saturatedValue content)
  else if content.contains ':' then
    let (start, stop) := splitColons content
    slice (readBound? start) (readBound? stop)
  else if content.head? = some '?' then filter (String.ofList content)
  else key (String.ofList (stripQuotes content))

def ofToken : Token → Segment
  | .dots name => recursive (String.ofList name)
  | .bracket content => ofContent content
  | .dot name => if name = ['*'] then wildcard else child (String.ofList name)

end PathQuery.Segment
