import PathQuery.Text.Printable

/-! # Quoted text

A quoted text stands between apostrophes, or between quotation marks when it holds an apostrophe
and no quotation mark. The enclosing mark and the backslash are preceded by a backslash, the line
feed, the carriage return and the tab have letters of their own, and every other character that is
not printable is written by its code point in two, four or eight hexadecimal digits. `stripQuotes`
removes quotes without reading escapes. -/

namespace PathQuery.Text

def apostrophe : Char := '\x27'

def quotationMark : Char := '\x22'

def backslash : Char := '\x5c'

def isQuote (c : Char) : Bool := c == apostrophe || c == quotationMark

def enclosingMark (s : List Char) : Char :=
  if s.contains apostrophe && !s.contains quotationMark then quotationMark else apostrophe

def hexadecimal (width n : Nat) : List Char :=
  let digits := Nat.toDigits 16 n
  List.replicate (width - digits.length) '0' ++ digits

def escapeCodePoint (n : Nat) : List Char :=
  if n < 0x100 then [backslash, 'x'] ++ hexadecimal 2 n
  else if n < 0x10000 then [backslash, 'u'] ++ hexadecimal 4 n
  else [backslash, 'U'] ++ hexadecimal 8 n

def escapeChar (mark c : Char) : List Char :=
  if c = mark || c = backslash then [backslash, c]
  else if c = '\n' then [backslash, 'n']
  else if c = '\r' then [backslash, 'r']
  else if c = '\t' then [backslash, 't']
  else if isPrintable c then [c]
  else escapeCodePoint c.toNat

def quotedChars (s : List Char) : List Char :=
  let mark := enclosingMark s
  mark :: s.flatMap (escapeChar mark) ++ [mark]

def quoted (s : String) : String := String.ofList (quotedChars s.toList)

/-- Drop a quote at the front and a quote at the end, independently. -/
def stripQuotes (s : List Char) : List Char :=
  let front := if s.head?.any isQuote then s.tail else s
  if front.getLast?.any isQuote then front.dropLast else front

end PathQuery.Text
