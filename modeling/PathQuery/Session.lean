import PathQuery.Evaluation
import PathQuery.Logger
import PathQuery.Settings

/-! # Sessions

A session holds the settings with the overrides in force, the loggers with their levels and the
handlers of the top logger. A step acts on the session and has an answer or a fault. -/

namespace PathQuery

structure Handler where
  console : String
  deriving DecidableEq, Repr

structure Session where
  settings : Settings
  /-- The settings at the pushes still open, the innermost first. -/
  saved : List Settings
  loggers : Loggers
  handlers : List Handler
  deriving DecidableEq, Repr

namespace Session

inductive Step
  | set (name : Settings.AttributeName) (value : Value)
  | push (values : List (String × Value))
  | pop
  | configure (level label : Option String)
  | getLogger (name : Option String)
  | evaluate (document path : Value)
  deriving DecidableEq, Repr

inductive Answer
  | done
  | configured (logger : String)
  | logger (name : String) (effective : Level)
  | evaluated (result : Logged Evaluation.Outcome)
  deriving DecidableEq, Repr

/-- The top logger and those that make records exist from the start. -/
def initialLoggers : Loggers :=
  [Loggers.topName, Condition.loggerName, Evaluation.loggerName].map fun name => (name, .unset)

def initial : Session := ⟨.initial, [], initialLoggers, []⟩

def defaultConsole : String := "stderr"

/-- A session with the answer or the fault that came with it. -/
abbrev Outcome := Session × Except Fault Answer

def set (s : Session) (name : Settings.AttributeName) (value : Value) : Outcome :=
  match s.settings.assignNamed name value with
  | .ok settings => ({ s with settings := settings }, .ok .done)
  | .error fault => (s, .error fault)

/-- Assign fields one after the other, up to the first that cannot be assigned. -/
def assignAll (s : Session) : List (String × Value) → Session × Option Fault
  | [] => (s, none)
  | (name, value) :: rest =>
    match Settings.Field.ofName? name with
    | none => (s, some (.unknownField name))
    | some f =>
      match s.settings.assign f value with
      | .valid settings => assignAll { s with settings := settings } rest
      | .invalid issues => (s, some (.invalid issues))

/-- Assign saved settings back, field by field, in the same way as any other values. -/
def restore (s : Session) (settings : Settings) : Session × Option Fault :=
  s.assignAll settings.entries

/-- Begin an override. When an assignment fails, the settings from before it are restored; a fault
in that would take the place of the first. -/
def push (s : Session) (values : List (String × Value)) : Outcome :=
  match s.assignAll values with
  | (next, none) => ({ next with saved := s.settings :: next.saved }, .ok .done)
  | (next, some fault) =>
    let (back, failure) := next.restore s.settings
    (back, .error (failure.getD fault))

/-- End the innermost override. -/
def pop (s : Session) : Outcome :=
  match s.saved with
  | [] => (s, .error .noOverride)
  | settings :: saved =>
    match { s with saved := saved }.restore settings with
    | (back, none) => (back, .ok .done)
    | (back, some fault) => (back, .error fault)

/-- The threshold asked for by a name; without one it is the level of the settings. -/
def threshold? (settings : Settings) : Option String → Except Fault Threshold
  | none => .ok (.atLeast settings.logLevel)
  | some name =>
    if name = "" then .ok (.atLeast settings.logLevel)
    else
      match Threshold.ofName? name with
      | some t => .ok t
      | none => .error (.unknownLevel name)

/-- Give the top logger a handler unless it has one, and the first handler the console that is
named. -/
def attach (label : Option String) : List Handler → List Handler
  | [] => [⟨label.getD defaultConsole⟩]
  | h :: rest => ⟨label.getD h.console⟩ :: rest

/-- Set the level of the top logger and see to its handler. -/
def configure (s : Session) (level label : Option String) : Outcome :=
  match threshold? s.settings level with
  | .ok t =>
    ({ s with loggers := s.loggers.set Loggers.topName t, handlers := attach label s.handlers },
      .ok (.configured Loggers.topName))
  | .error fault => (s, .error fault)

def effectiveLevel (s : Session) (name : Option String) : Level :=
  s.loggers.effective (Loggers.fullName name)

/-- Ask for the logger of a name, and for the level at which it is effective. -/
def getLogger (s : Session) (name : Option String) : Outcome :=
  let asked := { s with loggers := s.loggers.ask (Loggers.fullName name) }
  (asked, .ok (.logger (Loggers.fullName name) (asked.effectiveLevel name)))

/-- Whether the logger that made a record passes it on. -/
def keeps (s : Session) (r : Record) : Bool := r.passes (s.loggers.effective r.logger)

/-- Evaluate under the settings, keeping the records that are passed on. -/
def evaluate (s : Session) (document path : Value) : Logged Evaluation.Outcome :=
  let result := Evaluation.evaluateAny s.settings.traceSegments document path
  ⟨result.value, result.records.filter s.keeps⟩

def step (s : Session) : Step → Outcome
  | .set name value => s.set name value
  | .push values => s.push values
  | .pop => s.pop
  | .configure level label => s.configure level label
  | .getLogger name => s.getLogger name
  | .evaluate document path => (s, .ok (.evaluated (s.evaluate document path)))

def run (s : Session) : List Step → List Outcome
  | [] => []
  | x :: rest =>
    let after := s.step x
    after :: run after.1 rest

end Session
end PathQuery
