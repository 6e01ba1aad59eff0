import PathQuery.Condition.Admission
import PathQuery.Segment

/-! # What a segment selects

A segment selects values inside one item. `Value.search` collects what is stored under a key at any
depth with a list of pending values, so that the depth of a document is no limit; `Value.under` is
the same collection by recursion on the value: first the value's own entry under the key, then those
of its children in order. -/

namespace PathQuery
namespace Value

/-- Search the pending values in order, in front of each its own entry and behind it its children.
The values found so far stand in reverse. -/
def searchFrom (key : String) : List Value → List Value → List Value
  | [], found => found.reverse
  | v :: pending, found =>
    searchFrom key (v.children ++ pending) ((v.get? key).toList ++ found)
termination_by pending => sizeAll pending
decreasing_by
  simp only [sizeAll, sizeAll_append, size_eq v]
  omega

def search (v : Value) (key : String) : List Value := searchFrom key [v] []

mutual

/-- Every value stored under a key at any depth, by recursion on the value. -/
def under (key : String) : Value → List Value
  | object entries => (entries.lookup key).toList ++ underEntries key entries
  | list items => underAll key items
  | tuple items => underAll key items
  | _ => []

def underAll (key : String) : List Value → List Value
  | [] => []
  | v :: rest => v.under key ++ underAll key rest

def underEntries (key : String) : List (String × Value) → List Value
  | [] => []
  | (_, v) :: rest => v.under key ++ underEntries key rest

end

/-- The members from one bound up to another; a negative bound is zero. -/
def slice (start stop : Option Int) (items : List Value) : List Value :=
  let first := (start.getD 0).toNat
  let last := (stop.map Int.toNat).getD items.length
  (items.take last).drop first

end Value

def Segment.select (s : Segment) (item : Value) : Logged (List Value) :=
  match s with
  | recursive name => ⟨item.search name, []⟩
  | wildcard => ⟨item.children, []⟩
  | index position => ⟨item.members[position]?.toList, []⟩
  | slice start stop => ⟨Value.slice start stop item.members, []⟩
  | filter expression => Logged.filter (Condition.admits expression) item.members
  | child name => ⟨(item.get? name).toList, []⟩
  | key name => ⟨(item.get? name).toList, []⟩

end PathQuery
