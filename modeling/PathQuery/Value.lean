import PathQuery.Number

/-! # Values

A document is a value: null, a boolean, a number, a text, a sequence or an object. Sequences are
lists or tuples, and every operation treats the two alike. An object keeps its entries in insertion
order, and its keys are meant to be distinct. -/

namespace PathQuery

inductive Value
  | null
  | bool (b : Bool)
  | number (n : Number)
  | text (s : String)
  | list (items : List Value)
  | tuple (items : List Value)
  | object (entries : List (String × Value))
  deriving Repr

namespace Value

def int (n : Int) : Value := number (.int n)

def float (x : Binary64) : Value := number (.float x)

def isObject : Value → Bool
  | object _ => true
  | _ => false

def isSequence : Value → Bool
  | list _ => true
  | tuple _ => true
  | _ => false

/-- The members of a sequence; any other value has none. -/
def members : Value → List Value
  | list items => items
  | tuple items => items
  | _ => []

/-- The members of a sequence or the values of an object, in order. -/
def children : Value → List Value
  | list items => items
  | tuple items => items
  | object entries => entries.map Prod.snd
  | _ => []

def get? (v : Value) (key : String) : Option Value :=
  match v with
  | object entries => entries.lookup key
  | _ => none

mutual

/-- The number of values in a value, itself included. -/
def size : Value → Nat
  | list items => sizeAll items + 1
  | tuple items => sizeAll items + 1
  | object entries => sizeEntries entries + 1
  | _ => 1

def sizeAll : List Value → Nat
  | [] => 0
  | v :: rest => v.size + sizeAll rest

def sizeEntries : List (String × Value) → Nat
  | [] => 0
  | (_, v) :: rest => v.size + sizeEntries rest

end

theorem sizeAll_append (xs ys : List Value) : sizeAll (xs ++ ys) = sizeAll xs + sizeAll ys := by
  induction xs with
  | nil => simp [sizeAll]
  | cons v rest ih => simp only [List.cons_append, sizeAll, ih]; omega

theorem sizeAll_map_snd (entries : List (String × Value)) :
    sizeAll (entries.map Prod.snd) = sizeEntries entries := by
  induction entries with
  | nil => rfl
  | cons e rest ih => simp only [List.map_cons, sizeAll, sizeEntries, ih]

theorem size_eq (v : Value) : v.size = sizeAll v.children + 1 := by
  cases v <;> simp [size, children, sizeAll, sizeAll_map_snd]

end Value
end PathQuery
