/-! # Log records

A record has a level, the name of the logger that made it and a message, and may come with a
failure. A `Logged` result carries the records made on the way to it, in order. -/

namespace PathQuery

inductive Level
  | debug
  | info
  | warning
  | error
  | critical
  deriving DecidableEq, Repr

namespace Level

def all : List Level := [debug, info, warning, error, critical]

def name : Level → String
  | debug => "DEBUG"
  | info => "INFO"
  | warning => "WARNING"
  | error => "ERROR"
  | critical => "CRITICAL"

def severity : Level → Nat
  | debug => 10
  | info => 20
  | warning => 30
  | error => 40
  | critical => 50

def ofName? (s : String) : Option Level := all.find? (·.name == s)

theorem ofName?_name (l : Level) : ofName? l.name = some l := by cases l <;> decide

end Level

structure Record where
  level : Level
  logger : String
  message : String
  withFailure : Bool
  deriving DecidableEq, Repr

def Record.passes (effective : Level) (r : Record) : Bool :=
  effective.severity ≤ r.level.severity

structure Logged (α : Type) where
  value : α
  records : List Record
  deriving DecidableEq, Repr

namespace Logged

def map {α β : Type} (f : α → β) (x : Logged α) : Logged β := ⟨f x.value, x.records⟩

/-- The results of all items in order, with all their records in order. -/
def flatMap {α β : Type} (f : α → Logged (List β)) (items : List α) : Logged (List β) :=
  let results := items.map f
  ⟨results.flatMap value, results.flatMap records⟩

/-- The items that pass a test, with the records of all tests in order. -/
def filter {α : Type} (p : α → Logged Bool) (items : List α) : Logged (List α) :=
  flatMap (fun a => (p a).map fun b => if b then [a] else []) items

end Logged
end PathQuery
