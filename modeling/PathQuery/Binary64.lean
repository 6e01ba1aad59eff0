/-! # Binary floating-point numbers of 64 bits

A finite number is its sign, its exponent field and its fraction field of 52 bits, so that every
value of the type is one number of the format. Every finite number is an integral multiple of
`2 ^ -1074`; the multiple is `units`, and order and equality are those of integers. -/

namespace PathQuery

inductive Binary64
  | nan
  | infinite (negative : Bool)
  | finite (negative : Bool) (exponent : Fin 2047) (fraction : Fin 0x10000000000000)
  deriving DecidableEq, Repr

namespace Binary64

/-- The number whose sign-free encoding is `code`; past the last finite one stands infinity. -/
def ofMagnitude (negative : Bool) (code : Nat) : Binary64 :=
  if h : code / 0x10000000000000 < 2047 then
    .finite negative ⟨code / 0x10000000000000, h⟩ ⟨code % 0x10000000000000, Nat.mod_lt _ (by decide)⟩
  else .infinite negative

def ofBits (bits : Nat) : Binary64 :=
  let code := bits % 0x8000000000000000
  if 0x7ff0000000000000 < code then .nan else ofMagnitude (0x8000000000000000 ≤ bits) code

def signBit (negative : Bool) : Nat := if negative then 0x8000000000000000 else 0

/-- The encoding; the number that is none has the quiet one. -/
def toBits : Binary64 → Nat
  | .nan => 0x7ff8000000000000
  | .infinite negative => signBit negative + 0x7ff0000000000000
  | .finite negative exponent fraction => signBit negative + exponent * 0x10000000000000 + fraction

def zero (negative : Bool) : Binary64 := .finite negative 0 0

/-- The significand with its implicit leading bit, absent when the exponent field is zero. -/
def significand (exponent : Fin 2047) (fraction : Fin 0x10000000000000) : Nat :=
  if exponent = 0 then fraction else 0x10000000000000 + fraction

/-- The power of two by which the significand is scaled, counted from `2 ^ -1074`. -/
def scale (exponent : Fin 2047) : Nat := exponent - 1

/-- The absolute value in units of `2 ^ -1074`. -/
def magnitude (exponent : Fin 2047) (fraction : Fin 0x10000000000000) : Nat :=
  significand exponent fraction * Nat.pow 2 (scale exponent)

/-- The value in units of `2 ^ -1074`. -/
def units (negative : Bool) (exponent : Fin 2047) (fraction : Fin 0x10000000000000) : Int :=
  if negative then -(magnitude exponent fraction : Int) else magnitude exponent fraction

def one : Nat := Nat.pow 2 1074

def toInt? : Binary64 → Option Int
  | .finite negative exponent fraction =>
    let n := units negative exponent fraction
    if n % one = 0 then some (n / one) else none
  | _ => none

/-- The integer that a finite number is, when it has one and that lies strictly inside the bounds of
a signed word. -/
def toWord? (x : Binary64) : Option Int :=
  x.toInt?.filter fun n => -0x8000000000000000 < n && n < 0x8000000000000000

def isFinite : Binary64 → Bool
  | .finite .. => true
  | _ => false

theorem ofMagnitude_fields (negative : Bool) (exponent : Fin 2047) (fraction : Fin 0x10000000000000) :
    ofMagnitude negative (exponent * 0x10000000000000 + fraction) = .finite negative exponent fraction := by
  have he := exponent.isLt
  have hf := fraction.isLt
  have hd : (exponent.val * 0x10000000000000 + fraction.val) / 0x10000000000000 = exponent := by omega
  have hm : (exponent.val * 0x10000000000000 + fraction.val) % 0x10000000000000 = fraction := by omega
  simp only [ofMagnitude, hd, hm, he, dite_true]

theorem ofBits_signBit_add (negative : Bool) {code : Nat} (h : code ≤ 0x7ff0000000000000) :
    ofBits (signBit negative + code) = ofMagnitude negative code := by
  have hs : signBit negative = 0 ∧ negative = false ∨
      signBit negative = 0x8000000000000000 ∧ negative = true := by
    cases negative <;> simp [signBit]
  generalize hn : signBit negative + code = n
  have hm : n % 0x8000000000000000 = code := by
    rcases hs with ⟨hs, -⟩ | ⟨hs, -⟩ <;> omega
  have hd : decide (0x8000000000000000 ≤ n) = negative := by
    rcases hs with ⟨hs, rfl⟩ | ⟨hs, rfl⟩ <;> simp <;> omega
  simp only [ofBits, hm, hd]
  rw [if_neg (by omega)]

theorem ofBits_toBits (x : Binary64) : ofBits x.toBits = x := by
  rcases x with _ | negative | ⟨negative, exponent, fraction⟩
  · decide
  · cases negative <;> decide
  · have he := exponent.isLt
    have hf := fraction.isLt
    rw [toBits, Nat.add_assoc, ofBits_signBit_add _ (by omega), ofMagnitude_fields]

end Binary64
end PathQuery
