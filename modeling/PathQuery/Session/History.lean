import PathQuery.Session

/-! # Histories of sessions

What can be said of a run by its steps and their answers alone: the session at its end, the number
of overrides that are open, and the configurations that succeeded, each with the level that the
settings had at its moment. -/

namespace PathQuery.Session

/-- The session after all steps of a run. -/
def after (s : Session) (steps : List Step) : Session :=
  ((s.run steps).getLast?.map Prod.fst).getD s

/-- The number of open overrides after a step that `n` of them precede. A push that fails opens
none, and a pop needs one that is open. -/
def openAfter? (n : Nat) : Step → Except Fault Answer → Option Nat
  | .push _, .ok _ => some (n + 1)
  | .pop, _ => if n = 0 then none else some (n - 1)
  | _, _ => some n

/-- The number of open overrides after a run that `n` of them precede, unless the run ends more
than it may. -/
def openThrough? (s : Session) (n : Nat) : List Step → Option Nat
  | [] => some n
  | x :: rest =>
    (openAfter? n x (s.step x).2).bind fun m => (s.step x).1.openThrough? m rest

/-- A run that ends every override that it begins, and no other. -/
def Balanced (s : Session) (steps : List Step) : Prop := s.openThrough? 0 steps = some 0

instance (s : Session) (steps : List Step) : Decidable (s.Balanced steps) :=
  inferInstanceAs (Decidable (_ = _))

/-- A configuration that succeeded: the level and the label it was given, and the level of the
settings at that moment. -/
structure Configuration where
  level : Option String
  label : Option String
  ambient : Level
  deriving DecidableEq, Repr

/-- The threshold of a configuration is the one of the name it was given, if that is not empty, and
otherwise the level of the settings. -/
def Configuration.Determines (c : Configuration) (t : Threshold) : Prop :=
  match c.level with
  | none => t = .atLeast c.ambient
  | some name => if name = "" then t = .atLeast c.ambient else Threshold.ofName? name = some t

def configuration? (s : Session) (x : Step) : Option Configuration :=
  match x, (s.step x).2 with
  | .configure level label, .ok _ => some ⟨level, label, s.settings.logLevel⟩
  | _, _ => none

/-- The configurations that succeed in a run, in order. -/
def configurations (s : Session) : List Step → List Configuration
  | [] => []
  | x :: rest => (s.configuration? x).toList ++ (s.step x).1.configurations rest

end PathQuery.Session
