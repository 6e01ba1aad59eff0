import PathQuery.Segment.Classification

/-! # Writing paths

Every segment is written as one token: a name after its dots, and everything else in brackets. A key
stands between apostrophes, and an absent bound of a slice is empty. -/

namespace PathQuery

namespace Segment

def integerText (n : Int) : List Char :=
  (if n < 0 then ['-'] else []) ++ Nat.toDigits 10 n.natAbs

def boundText : Option Int → List Char
  | none => []
  | some n => integerText n

def token : Segment → Token
  | child name => .dot name.toList
  | recursive name => .dots name.toList
  | wildcard => .bracket ['*']
  | index position => .bracket (Nat.toDigits 10 position)
  | slice start stop => .bracket (boundText start ++ ':' :: boundText stop)
  | key name => .bracket (Text.apostrophe :: name.toList ++ [Text.apostrophe])
  | filter expression => .bracket expression.toList

end Segment

/-- The text of a path, without a sigil in front. -/
def Path.render (segments : List Segment) : List Char :=
  segments.flatMap fun s => s.token.text

end PathQuery
