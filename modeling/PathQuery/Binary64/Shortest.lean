import PathQuery.Binary64.Rounding

/-! # Shortest decimal text of a binary number

The digits of a finite number are the fewest that lie in the interval of reals which round to it,
and of those the closest to it. For each number of digits only the two neighbours of the value on
the decimal grid can lie in the interval. Values from `10 ^ -4` up to `10 ^ 16` are written without
an exponent and always with a decimal point. -/

namespace PathQuery.Binary64

/-- A quadrupled magnitude with the ends of the interval of reals that round to it, in quarters of
`2 ^ -1074`. The interval is closed when the significand is even. -/
structure Interval where
  lower : Nat
  middle : Nat
  upper : Nat
  closed : Bool
  deriving DecidableEq, Repr

/-- Below a power of two the neighbour is half as far. -/
def interval (exponent : Fin 2047) (fraction : Fin 0x10000000000000) : Interval :=
  let unit := Nat.pow 2 (scale exponent)
  let middle := 4 * magnitude exponent fraction
  let below := if fraction.val = 0 ∧ 1 < exponent.val then unit else 2 * unit
  ⟨middle - below, middle, middle + 2 * unit, fraction.val % 2 = 0⟩

def Interval.holds (i : Interval) (numerator denominator : Nat) : Bool :=
  if i.closed then i.lower * denominator ≤ numerator ∧ numerator ≤ i.upper * denominator
  else i.lower * denominator < numerator ∧ numerator < i.upper * denominator

/-- The position of the decimal point: the least `p` with the value below `10 ^ p`. -/
def pointPosition (middle : Nat) : Int :=
  decimalLength (middle * Nat.pow 10 400 / (4 * one)) - 400

/-- The closest member of the interval on the grid of multiples of `10 ^ place`, in multiples. -/
def Interval.onGrid? (i : Interval) (place : Int) : Option Nat :=
  let step := Nat.pow 10 place.toNat * (4 * one)
  let denominator := Nat.pow 10 (-place).toNat
  let value := i.middle * denominator
  let down := value / step
  let up := down + 1
  let toDown := value - down * step
  let toUp := up * step - value
  match i.holds (down * step) denominator, i.holds (up * step) denominator with
  | true, true =>
    if toDown < toUp ∨ toDown = toUp ∧ down % 2 = 0 then some down else some up
  | true, false => some down
  | false, true => some up
  | false, false => none

/-- The shortest decimal in the interval, as a multiple of a power of ten. Seventeen digits always
suffice. -/
def Interval.shortest (i : Interval) : Nat × Int :=
  let point := pointPosition i.middle
  ((List.range 17).findSome? fun n =>
    let place := point - (n + 1 : Nat)
    (i.onGrid? place).map (·, place)).getD (0, 0)

/-- Digits without trailing zeros, and the position of the decimal point in front of them. -/
def digitsOf (multiple : Nat) (place : Int) : List Char × Int :=
  let digits := Nat.toDigits 10 multiple
  ((digits.reverse.dropWhile (· = '0')).reverse, digits.length + place)

def zeros (n : Int) : List Char := List.replicate n.toNat '0'

def exponentText (e : Int) : List Char :=
  let digits := Nat.toDigits 10 e.natAbs
  (if e < 0 then '-' else '+') :: (zeros (2 - digits.length) ++ digits)

/-- Write digits whose decimal point stands at `point`. -/
def layOut (digits : List Char) (point : Int) : List Char :=
  if -4 < point ∧ point ≤ 16 then
    if point ≤ 0 then ['0', '.'] ++ zeros (-point) ++ digits
    else
      let rest := digits.drop point.toNat
      digits.take point.toNat ++ zeros (point - digits.length) ++ ['.'] ++
        (if rest.isEmpty then ['0'] else rest)
  else
    let rest := digits.drop 1
    digits.take 1 ++ (if rest.isEmpty then [] else '.' :: rest) ++ ['e'] ++ exponentText (point - 1)

def magnitudeChars (exponent : Fin 2047) (fraction : Fin 0x10000000000000) : List Char :=
  if magnitude exponent fraction = 0 then ['0', '.', '0']
  else
    let (multiple, place) := (interval exponent fraction).shortest
    let (digits, point) := digitsOf multiple place
    layOut digits point

def signed (negative : Bool) (s : List Char) : List Char := if negative then '-' :: s else s

def text : Binary64 → String
  | .nan => "nan"
  | .infinite negative => String.ofList (signed negative ['i', 'n', 'f'])
  | .finite negative exponent fraction =>
    String.ofList (signed negative (magnitudeChars exponent fraction))

end PathQuery.Binary64
