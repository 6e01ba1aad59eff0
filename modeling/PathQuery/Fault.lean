import PathQuery.Issue
import PathQuery.Number.Reader
import PathQuery.Value.Display
import PathQuery.Value.Equality

/-! # Faults

The causes for which an operation has no result, each with the message that reports it. -/

namespace PathQuery

inductive Fault
  | unrecognizedSegment (token : String)
  | tooManyDigits (count : Nat)
  | unsupportedFilter (body : String)
  | unknownOrdering (symbol : String)
  | propertyNotFound (name : String)
  | unsupportedSegment (value : Value)
  | pathNotText (path : Value)
  | unknownField (name : String)
  | notAssignable (name : String)
  | unknownLevel (name : String)
  | noOverride
  | invalid (issues : List Issue)
  deriving DecidableEq, Repr

def Fault.message : Fault → String
  | unrecognizedSegment token => "unrecognized path segment " ++ Text.quoted token
  | tooManyDigits count =>
    "Exceeds the limit (" ++ toString Number.digitLimit ++
      " digits) for integer string conversion: value has " ++ toString count ++
      " digits; use sys.set_int_max_str_digits() to increase the limit"
  | unsupportedFilter body => "unsupported filter expression " ++ Text.quoted body
  | unknownOrdering symbol => Text.quoted symbol
  | propertyNotFound name => "Property '" ++ name ++ "' not found"
  | unsupportedSegment value => "unsupported segment " ++ value.display
  | pathNotText path => "'" ++ path.kindName ++ "' object has no attribute 'strip'"
  | unknownField name => "unknown config field " ++ Text.quoted name
  | notAssignable name =>
    "property " ++ Text.quoted name ++ " of 'JsonPathTesterConfig' object has no setter"
  | unknownLevel name => "Unknown level: " ++ Text.quoted name
  | noOverride => "pop from empty list"
  | invalid issues => "; ".intercalate (issues.map Issue.text)

instance decidableEqExcept {ε α : Type} [DecidableEq ε] [DecidableEq α] :
    DecidableEq (Except ε α)
  | .ok a, .ok b => decidable_of_iff (a = b) (by simp)
  | .error a, .error b => decidable_of_iff (a = b) (by simp)
  | .ok _, .error _ => isFalse (by simp)
  | .error _, .ok _ => isFalse (by simp)

end PathQuery
