import PathQuery.Binary64.Shortest
import PathQuery.Text.Quoted
import PathQuery.Value

/-! # Displayed values

The form in which messages and trace lines show a value: quoted texts, bracketed lists, tuples in
parentheses with a comma after a lone member, and objects in braces. `kindName` is the word by which
messages name the kind of a value. -/

namespace PathQuery.Value

def kindName : Value → String
  | null => "NoneType"
  | bool _ => "bool"
  | number (.int _) => "int"
  | number (.float _) => "float"
  | text _ => "str"
  | list _ => "list"
  | tuple _ => "tuple"
  | object _ => "dict"

def displayNumber : Number → String
  | .int n => toString n
  | .float x => x.text

mutual

def display : Value → String
  | null => "None"
  | bool b => if b then "True" else "False"
  | number n => displayNumber n
  | text s => Text.quoted s
  | list items => "[" ++ displayItems items ++ "]"
  | tuple items => "(" ++ displayItems items ++ (if items.length = 1 then "," else "") ++ ")"
  | object entries => "\x7b" ++ displayEntries entries ++ "\x7d"

def displayItems : List Value → String
  | [] => ""
  | v :: rest => v.display ++ (if rest.isEmpty then "" else ", ") ++ displayItems rest

def displayEntries : List (String × Value) → String
  | [] => ""
  | (key, v) :: rest =>
    Text.quoted key ++ ": " ++ v.display ++ (if rest.isEmpty then "" else ", ") ++
      displayEntries rest

end

end PathQuery.Value
