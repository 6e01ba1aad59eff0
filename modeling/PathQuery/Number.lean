import PathQuery.Binary64

/-! # Numbers

A number is an integer of any size or a binary floating-point number. Both kinds are compared
exactly, by their positions on the extended line: an integral multiple of `2 ^ -1074` or one of the
two infinities. The floating-point number that is none has no position, so it compares with
nothing. -/

namespace PathQuery

inductive Number
  | int (n : Int)
  | float (x : Binary64)
  deriving DecidableEq, Repr

/-- A place on the extended line, in units of `2 ^ -1074`. -/
inductive Position
  | bottom
  | point (units : Int)
  | top
  deriving DecidableEq, Repr

namespace Position

def compare : Position → Position → Ordering
  | bottom, bottom => .eq
  | bottom, _ => .lt
  | point _, bottom => .gt
  | point a, point b => Ord.compare a b
  | point _, top => .lt
  | top, top => .eq
  | top, _ => .gt

end Position

def Binary64.position? : Binary64 → Option Position
  | .nan => none
  | .infinite negative => some (if negative then .bottom else .top)
  | .finite negative exponent fraction => some (.point (units negative exponent fraction))

namespace Number

def position? : Number → Option Position
  | int n => some (.point (n * Binary64.one))
  | float x => x.position?

def compare? (a b : Number) : Option Ordering :=
  match a.position?, b.position? with
  | some p, some q => some (p.compare q)
  | _, _ => none

/-- The integer that a number is, when it fits a signed word; of floating-point numbers the least
word is left out. -/
def toWord? : Number → Option Int
  | int n => if -0x8000000000000000 ≤ n ∧ n < 0x8000000000000000 then some n else none
  | float x => x.toWord?

/-- The number that is none. -/
def undefined : Number := float .nan

theorem compare?_undefined (a : Number) : a.compare? undefined = none := by
  unfold compare?
  cases a.position? <;> rfl

end Number
end PathQuery
