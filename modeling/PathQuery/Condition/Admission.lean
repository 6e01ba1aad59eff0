import PathQuery.Condition.Reading
import PathQuery.Record

/-! # Items that a filter admits

An object is admitted when it satisfies the condition of the filter. An item that is no object is
admitted always, and so is every item when the expression mentions no property or states no
condition; only the last case is recorded. Any other fault admits the item, too, and is recorded as
a failure. -/

namespace PathQuery.Condition

def loggerName : String := "jsonpath_tester.filters"

def ignored (fault : Fault) : Record :=
  ⟨.debug, loggerName, "filter passes everything: " ++ fault.message, false⟩

def failed (expression : Value) : Record :=
  ⟨.debug, loggerName, "filter " ++ expression.display ++ " failed; treating as pass", true⟩

/-- Decide on an item, up to the first fault other than that no condition is stated. -/
def attempt (expression : String) (item : Value) : Logged (Except Fault Bool) :=
  if mentionsItem (body expression.toList) && item.isObject then
    match read expression with
    | .ok c => ⟨c.verdict item, []⟩
    | .error (.unsupportedFilter text) => ⟨.ok true, [ignored (.unsupportedFilter text)]⟩
    | .error fault => ⟨.error fault, []⟩
  else ⟨.ok true, []⟩

/-- A fault admits the item and is recorded. -/
def recordFailure (expression : Value) (result : Logged (Except Fault Bool)) : Logged Bool :=
  match result.value with
  | .ok admitted => ⟨admitted, result.records⟩
  | .error _ => ⟨true, result.records ++ [failed expression]⟩

def admits (expression : String) (item : Value) : Logged Bool :=
  recordFailure (.text expression) (attempt expression item)

/-- Filter by any value. One that is no text states no condition, and that is recorded as a
failure. -/
def admitsBy (expression item : Value) : Logged Bool :=
  match expression with
  | .text s => admits s item
  | v => ⟨true, [failed v]⟩

end PathQuery.Condition
