import PathQuery.Comparison
import PathQuery.Text.Backtracking

/-! # Conditions

The expression of a filter segment states one comparison between a property of an item and a
literal. Its body, the expression without the enclosing mark and parentheses, is searched for the
first place where an at sign and a dot are followed by a word, an operator and a literal; text in
front of that place is ignored. An operator of two characters is preferred to its first character
alone, unless nothing but line feeds follows it. The literal runs to the end of its line. -/

namespace PathQuery

structure Condition where
  property : String
  comparison : Comparison
  literal : Literal
  deriving DecidableEq, Repr

namespace Condition
open Text

def isWordChar (c : Char) : Bool := c.isAlphanum || c == '_'

/-- Drop one opening mark with its parenthesis, and one closing parenthesis. -/
def body (expression : List Char) : List Char :=
  let inner := match expression with
    | '?' :: '(' :: s => s
    | s => s
  if inner.getLast? = some ')' then inner.dropLast else inner

/-- The operators as they are written, the longer ones first. -/
def operators : List (List Char) :=
  [['=', '='], ['!', '='], ['>', '='], ['<', '='], ['>'], ['<']]

/-- The texts of which a comparison is made. -/
structure Parts where
  property : List Char
  symbol : List Char
  literal : List Char
  deriving DecidableEq, Repr

/-- A comparison at the front of a text. -/
def atFront? (s : List Char) : Option Parts :=
  takeExactly ['@', '.'] s fun s =>
  takeSome isWordChar s fun property s =>
  takeRun isAsciiBlank s fun _ s =>
  takeOneOf operators s fun symbol s =>
  takeRun isAsciiBlank s fun _ s =>
  takeSome (· != '\n') s fun literal _ =>
  some ⟨property, symbol, literal⟩

def search? : List Char → Option Parts
  | [] => none
  | c :: rest => atFront? (c :: rest) <|> search? rest

def holds (c : Condition) (item : Value) : Bool :=
  c.literal.satisfies c.comparison (item.get? c.property)

/-- Whether a text names a property of the item anywhere. -/
def mentionsItem : List Char → Bool
  | '@' :: '.' :: _ => true
  | [] => false
  | _ :: rest => mentionsItem rest

def entries (c : Condition) : List (String × Value) :=
  [("prop", .text c.property), ("op", .text c.comparison.symbol), ("literal", c.literal.toValue)]

end Condition
end PathQuery
