import PathQuery.Condition.Validation
import PathQuery.Fault

/-! # Reading a condition and its verdict

A condition is put together from the texts of a comparison with every check on its fields, and an
ordering is found by its symbol when the condition is applied to an item. Each of these can refuse
what it is given, and fails with its fault. -/

namespace PathQuery.Condition

/-- The condition that the texts of a comparison state. -/
def ofParts (parts : Parts) : Except Fault Condition :=
  match ofFields (String.ofList parts.property) (String.ofList parts.symbol)
      (Literal.read parts.literal).toValue with
  | .valid c => .ok c
  | .invalid issues => .error (.invalid issues)

/-- The condition of an expression, or the fault that it states none. -/
def read (expression : String) : Except Fault Condition :=
  match search? (body expression.toList) with
  | some parts => ofParts parts
  | none => .error (.unsupportedFilter (String.ofList (body expression.toList)))

def verdictBy (symbol : String) (literal : Literal) (actual : Option Value) : Except Fault Bool :=
  if symbol = "==" then .ok (literal.equals actual)
  else if symbol = "!=" then .ok (!literal.equals actual)
  else (Inequality.read symbol).map fun i => literal.orders i actual

/-- Whether an item satisfies a condition. -/
def verdict (c : Condition) (item : Value) : Except Fault Bool :=
  verdictBy c.comparison.symbol c.literal (item.get? c.property)

end PathQuery.Condition
