import PathQuery.Fault
import PathQuery.Number.Reader

/-! # Comparing values with literals

The literal of a filter is a number or a text. A literal text equals the same text only; a literal
number equals every value that reads as that number: a boolean as zero or one, a number, or a text
which, once trimmed, is a number. Two texts are ordered by code points; every other pair is ordered
by the numbers that both sides read as, and not at all when one of them reads as none. -/

namespace PathQuery

inductive Inequality
  | greater
  | less
  | greaterEqual
  | lessEqual
  deriving DecidableEq, Repr

inductive Comparison
  | equal
  | unequal
  | inequality (i : Inequality)
  deriving DecidableEq, Repr

namespace Inequality

def symbol : Inequality → String
  | greater => ">"
  | less => "<"
  | greaterEqual => ">="
  | lessEqual => "<="

def all : List Inequality := [greater, less, greaterEqual, lessEqual]

def ofSymbol? (s : String) : Option Inequality := all.find? (·.symbol == s)

def read (symbol : String) : Except Fault Inequality :=
  match ofSymbol? symbol with
  | some i => .ok i
  | none => .error (.unknownOrdering symbol)

/-- Whether an outcome of comparing the left side with the right one satisfies the inequality. -/
def accepts : Inequality → Ordering → Bool
  | greater, o => o.isGT
  | less, o => o.isLT
  | greaterEqual, o => o.isGE
  | lessEqual, o => o.isLE

theorem ofSymbol?_symbol (i : Inequality) : ofSymbol? i.symbol = some i := by
  cases i <;> decide

end Inequality

namespace Comparison

def symbol : Comparison → String
  | equal => "=="
  | unequal => "!="
  | inequality i => i.symbol

def all : List Comparison := equal :: unequal :: Inequality.all.map inequality

def ofSymbol? (s : String) : Option Comparison := all.find? (·.symbol == s)

theorem ofSymbol?_symbol (c : Comparison) : ofSymbol? c.symbol = some c := by
  rcases c with _ | _ | i
  · decide
  · decide
  · cases i <;> decide

end Comparison

inductive Literal
  | number (n : Number)
  | text (s : String)
  deriving DecidableEq, Repr

def Value.reading? : Value → Option Number
  | .bool b => some (.int (if b then 1 else 0))
  | .number n => some n
  | .text s => Number.read? (Text.trim Text.isBlank s.toList)
  | _ => none

namespace Literal

/-- Read the text of a literal: trimmed, without a quote at either end, a number where it is one. -/
def read (s : List Char) : Literal :=
  let body := Text.stripQuotes (Text.trim Text.isBlank s)
  match Number.read? body with
  | some n => number n
  | none => text (String.ofList body)

def toValue : Literal → Value
  | number n => .number n
  | text s => .text s

/-- Take a value as a literal. A value that reads as no number compares like the number that is
none. -/
def ofValue : Value → Literal
  | .text s => text s
  | v => number (v.reading?.getD Number.undefined)

/-- The number that a literal reads as in an ordering. -/
def reading? (l : Literal) : Option Number := l.toValue.reading?

/-- Whether a value, if there is one, counts as equal to the literal. -/
def equals : Literal → Option Value → Bool
  | text t, some (.text s) => s == t
  | text _, _ => false
  | number n, actual => (actual.bind Value.reading?).any fun m => m.compare? n == some .eq

/-- Whether a value, if there is one, stands in the given order to the literal. -/
def orders (i : Inequality) : Literal → Option Value → Bool
  | text t, some (.text s) => i.accepts (compare s t)
  | l, actual =>
    match actual.bind Value.reading?, l.reading? with
    | some m, some n => (m.compare? n).any i.accepts
    | _, _ => false

def satisfies (c : Comparison) (l : Literal) (actual : Option Value) : Bool :=
  match c with
  | .equal => l.equals actual
  | .unequal => !l.equals actual
  | .inequality i => l.orders i actual

end Literal
end PathQuery
