import PathQuery.Fault
import PathQuery.Record

/-! # Settings

Three settings govern evaluation: the level at which logging begins when none is named, and whether
tracebacks are decorated and segments traced. A field is assigned from any value: the level by its
name, a flag from a boolean, from zero or one, or from a word for yes or no in any case. -/

namespace PathQuery

structure Settings where
  logLevel : Level
  richTracebacks : Bool
  traceSegments : Bool
  deriving DecidableEq, Repr

namespace Settings

def initial : Settings := ⟨.warning, false, false⟩

inductive Field
  | logLevel
  | richTracebacks
  | traceSegments
  deriving DecidableEq, Repr

namespace Field

def all : List Field := [logLevel, richTracebacks, traceSegments]

def name : Field → String
  | logLevel => "log_level"
  | richTracebacks => "rich_tracebacks"
  | traceSegments => "trace_segments"

def ofName? (s : String) : Option Field := all.find? (·.name == s)

theorem ofName?_name (f : Field) : ofName? f.name = some f := by cases f <;> decide

end Field

/-- What a field holds, as a value. -/
def value (s : Settings) : Field → Value
  | .logLevel => .text s.logLevel.name
  | .richTracebacks => .bool s.richTracebacks
  | .traceSegments => .bool s.traceSegments

def entries (s : Settings) : List (String × Value) := Field.all.map fun f => (f.name, s.value f)

def readLevel : Value → Checked Level
  | .text s =>
    match Level.ofName? s with
    | some l => .valid l
    | none => .complain [] .notAChoice
  | _ => .complain [] .notAChoice

def yesWords : List String := ["1", "true", "t", "yes", "y", "on"]

def noWords : List String := ["0", "false", "f", "no", "n", "off"]

def flagOfText? (word : String) : Option Bool :=
  let lower := word.map Char.toLower
  if yesWords.contains lower then some true
  else if noWords.contains lower then some false
  else none

def flagOfInt? (n : Int) : Option Bool :=
  if n = 0 then some false else if n = 1 then some true else none

def checkFlag : Option Bool → Checked Bool
  | some b => .valid b
  | none => .complain [] .unreadableBoolean

/-- A number is a flag only as a word. -/
def checkWord : Option Int → Checked Bool
  | some n => checkFlag (flagOfInt? n)
  | none => .complain [] .notABoolean

def readFlag : Value → Checked Bool
  | .bool b => .valid b
  | .text s => checkFlag (flagOfText? s)
  | .number n => checkWord n.toWord?
  | _ => .complain [] .notABoolean

def assign (s : Settings) (f : Field) (v : Value) : Checked Settings :=
  match f with
  | .logLevel => ((readLevel v).map fun l => ⟨l, s.richTracebacks, s.traceSegments⟩).within f.name
  | .richTracebacks => ((readFlag v).map fun b => ⟨s.logLevel, b, s.traceSegments⟩).within f.name
  | .traceSegments => ((readFlag v).map fun b => ⟨s.logLevel, s.richTracebacks, b⟩).within f.name

/-- The name of an attribute, with anything but an underscore in front. Names that begin with one are
left out: what is assigned to them goes unchecked to the object that holds the settings, past the fields
and their readers, and nothing is said of it here. -/
structure AttributeName where
  text : String
  isPublic : text.toList.head? ≠ some '_'
  deriving DecidableEq, Repr

def AttributeName.ofText? (s : String) : Option AttributeName :=
  if h : s.toList.head? ≠ some '_' then some ⟨s, h⟩ else none

/-- Attributes that are computed, and so cannot be assigned. -/
def computedNames : List String := ["model_extra", "model_fields_set"]

/-- The fault of an assignment to a name without a field. -/
def noFieldFault (name : String) : Fault :=
  if computedNames.contains name then .notAssignable name
  else .invalid [⟨[name], .fieldUnknown⟩]

/-- Assign a value to the field of a name. -/
def assignNamed (s : Settings) (name : AttributeName) (v : Value) : Except Fault Settings :=
  match Field.ofName? name.text with
  | none => .error (noFieldFault name.text)
  | some f =>
    match s.assign f v with
    | .valid settings => .ok settings
    | .invalid issues => .error (.invalid issues)

end Settings
end PathQuery
