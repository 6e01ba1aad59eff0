import PathQuery.Condition
import PathQuery.Issue

/-! # Conditions from their fields

A condition can be put together from a property name, the symbol of an operator and a literal. A
boolean literal is the integer zero or one; a value that is neither a number nor a text is refused
once for every kind of literal. -/

namespace PathQuery.Condition

def readOperator (symbol : String) : Checked Comparison :=
  match Comparison.ofSymbol? symbol with
  | some c => .valid c
  | none => .complain ["op"] .notAChoice

def readLiteralField : Value → Checked Literal
  | .bool b => .valid (.number (.int (if b then 1 else 0)))
  | .number n => .valid (.number n)
  | .text s => .valid (.text s)
  | _ =>
    .invalid [⟨["literal", "int"], .notAnInteger⟩, ⟨["literal", "float"], .notAFloat⟩,
      ⟨["literal", "str"], .notAText⟩]

def ofFields (property symbol : String) (literal : Value) : Checked Condition :=
  ((readOperator symbol).both (readLiteralField literal)).map fun p => ⟨property, p.1, p.2⟩

end PathQuery.Condition
