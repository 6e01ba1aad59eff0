import PathQuery.Binary64

/-! # Rounding to the nearest binary number

`nearest` is the number of the format closest to a quotient of natural numbers; of two that are
equally close, the one with the even significand. A quotient past the largest finite number by half
a unit in its last place or more becomes infinite. `ofDecimal` reads digits with a power of ten. -/

namespace PathQuery.Binary64

/-- The quotient rounded to the nearest integer, a half to the even neighbour. -/
def roundQuotient (numerator denominator : Nat) : Nat :=
  let quotient := numerator / denominator
  let rest := 2 * (numerator % denominator)
  if denominator < rest ∨ rest = denominator ∧ quotient % 2 = 1 then quotient + 1 else quotient

/-- The number nearest to `numerator / denominator`, negated on request. The significand is rounded
in units of `2 ^ shift`, and the sum of the shifted exponent and the significand is the encoding. -/
def nearest (negative : Bool) (numerator denominator : Nat) : Binary64 :=
  let scaled := numerator * one
  let shift := (scaled / denominator).log2 - 52
  ofMagnitude negative
    (shift * 0x10000000000000 + roundQuotient scaled (denominator * Nat.pow 2 shift))

def decimalLength (n : Nat) : Nat := (Nat.toDigits 10 n).length

/-- The number nearest to `digits * 10 ^ exponent`. Beyond `10 ^ 310` all are infinite and below
`10 ^ -330` all are zero, which bounds the powers that are formed. -/
def ofDecimal (negative : Bool) (digits : Nat) (exponent : Int) : Binary64 :=
  let length := decimalLength digits + exponent
  if digits = 0 ∨ length < -330 then zero negative
  else if 310 < length then .infinite negative
  else nearest negative (digits * Nat.pow 10 exponent.toNat) (Nat.pow 10 (-exponent).toNat)

end PathQuery.Binary64
