import PathQuery.Path
import PathQuery.Selection

/-! # Evaluating a path

The segments of a path act one after the other on a working set that begins with the document; an
empty working set ends the traversal. A path in which no token is found is the name of a property of
the document. With tracing on, every segment leaves a record of how many values it selected. A fault
ends the evaluation and is its outcome. -/

namespace PathQuery.Evaluation

def loggerName : String := "jsonpath_tester.engine"

/-- The values that a path selects, or the fault that it has no answer. -/
abbrev Outcome := Except Fault (List Value)

def traced (s : Segment) (count : Nat) : Record :=
  ⟨.debug, loggerName, "segment " ++ s.text ++ " -> " ++ toString count ++ " match(es)", false⟩

def failed (path : Value) (fault : Fault) : Record :=
  ⟨.warning, loggerName, "evaluating " ++ path.display ++ " failed: " ++ fault.message, true⟩

/-- Apply segments to a working set, up to the first that leaves it empty. -/
def traverse (trace : Bool) : List Segment → List Value → Logged (List Value)
  | [], current => ⟨current, []⟩
  | s :: rest, current =>
    let next := Logged.flatMap s.select current
    let records := next.records ++ if trace then [traced s next.value.length] else []
    if next.value.isEmpty then ⟨[], records⟩
    else
      let final := traverse trace rest next.value
      ⟨final.value, records ++ final.records⟩

/-- The property of a document that a path without tokens names. -/
def property (document : Value) (name : String) : Outcome :=
  match document.get? name with
  | some v => .ok [v]
  | none => .error (.propertyNotFound name)

/-- Evaluate the text of a path, up to the first fault. -/
def attemptText (trace : Bool) (document : Value) (path : List Char) : Logged Outcome :=
  let trimmed := Text.trim Text.isBlank path
  if trimmed.isEmpty then ⟨.ok [], []⟩
  else if Path.isSigil trimmed then ⟨.ok [document], []⟩
  else
    let normalized := Path.normalize trimmed
    match Path.parse normalized with
    | .error fault => ⟨.error fault, []⟩
    | .ok segments =>
      if segments.isEmpty && !(Text.trim Text.isBlank normalized).isEmpty then
        ⟨property document (String.ofList normalized), []⟩
      else (traverse trace segments [document]).map .ok

/-- Evaluate any value as a path; only a text is one. -/
def attempt (trace : Bool) (document path : Value) : Logged Outcome :=
  match path with
  | .text s => attemptText trace document s.toList
  | v => ⟨.error (.pathNotText v), []⟩

/-- A property that is not found is an answer; every other fault is recorded as a warning. -/
def recordFault (path : Value) (result : Logged Outcome) : Logged Outcome :=
  match result.value with
  | .ok _ => result
  | .error (.propertyNotFound _) => result
  | .error fault => ⟨.error fault, result.records ++ [failed path fault]⟩

def evaluateAny (trace : Bool) (document path : Value) : Logged Outcome :=
  recordFault path (attempt trace document path)

def evaluate (trace : Bool) (document : Value) (path : String) : Logged Outcome :=
  evaluateAny trace document (.text path)

def results : Outcome → List Value
  | .ok values => values
  | .error _ => []

def message? : Outcome → Option String
  | .ok _ => none
  | .error fault => some fault.message

end PathQuery.Evaluation
