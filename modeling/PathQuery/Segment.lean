import PathQuery.Value.Display

/-! # Segments

A segment is one step of a path. Its fields, headed by the name of its kind, are both its form as a
value and its text in trace lines. -/

namespace PathQuery

inductive Segment
  | child (name : String)
  | recursive (name : String)
  | wildcard
  | index (position : Nat)
  | slice (start stop : Option Int)
  | key (name : String)
  | filter (expression : String)
  deriving DecidableEq, Repr

namespace Segment

inductive Kind
  | child
  | recursive
  | wildcard
  | index
  | slice
  | key
  | filter
  deriving DecidableEq, Repr

namespace Kind

def all : List Kind := [child, recursive, wildcard, index, slice, key, filter]

def name : Kind → String
  | child => "child"
  | recursive => "recursive"
  | wildcard => "wildcard"
  | index => "index"
  | slice => "slice"
  | key => "key"
  | filter => "filter"

def ofName? (s : String) : Option Kind := all.find? (·.name == s)

theorem ofName?_name (k : Kind) : ofName? k.name = some k := by cases k <;> decide

end Kind

def kind : Segment → Kind
  | child _ => .child
  | recursive _ => .recursive
  | wildcard => .wildcard
  | index _ => .index
  | slice .. => .slice
  | key _ => .key
  | filter _ => .filter

def boundValue : Option Int → Value
  | none => .null
  | some n => .int n

/-- The fields besides the kind, in order of declaration. -/
def fields : Segment → List (String × Value)
  | child name => [("name", .text name)]
  | recursive name => [("name", .text name)]
  | wildcard => []
  | index position => [("index", .int position)]
  | slice start stop => [("start", boundValue start), ("end", boundValue stop)]
  | key name => [("name", .text name)]
  | filter expression => [("expression", .text expression)]

def entries (s : Segment) : List (String × Value) := ("kind", .text s.kind.name) :: s.fields

def toValue (s : Segment) : Value := .object s.entries

def text (s : Segment) : String :=
  " ".intercalate (s.entries.map fun e => e.1 ++ "=" ++ e.2.display)

end Segment
end PathQuery
