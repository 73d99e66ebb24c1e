/-!
Binary floating-point formats and rounding of exact quotients to them.

A magnitude is the stored pattern of a value without its sign: exponent field above fraction field.
Patterns grow with the values they stand for, and adding one to a pattern gives the next value, also
across a change of exponent, so a significand that rounds up to the next power of two needs no case
of its own.
-/

set_option autoImplicit false

namespace SchemaScope.Literal

/-- A binary format: significand bits, the hidden one included, and exponent bits. -/
structure Format where
  precision : Nat
  exponentBits : Nat

namespace Format

def single : Format := ⟨24, 8⟩

def double : Format := ⟨53, 11⟩

def overflowExponent (format : Format) : Nat :=
  Nat.pow 2 (format.exponentBits - 1)

def leastExponent (format : Format) : Int :=
  3 - (format.overflowExponent : Int) - (format.precision : Int)

def infinity (format : Format) : Nat :=
  (Nat.pow 2 format.exponentBits - 1) * Nat.pow 2 (format.precision - 1)

end Format

/-- The integer nearest to a quotient. Of two that are equally near, the even one. -/
def roundQuotient (numerator denominator : Nat) : Nat :=
  let floor := numerator / denominator
  let rest := numerator % denominator
  if denominator < 2 * rest ∨ (denominator = 2 * rest ∧ floor % 2 = 1) then floor + 1 else floor

def scaleDown (numerator denominator : Nat) (exponent : Int) : Nat × Nat :=
  if 0 ≤ exponent then (numerator, denominator * Nat.pow 2 exponent.toNat)
  else (numerator * Nat.pow 2 (-exponent).toNat, denominator)

/-- The exponent of the largest power of two that is at most a positive quotient. The logarithms of
the two parts give it up to one. -/
def quotientExponent (numerator denominator : Nat) : Int :=
  let guess : Int := (numerator.log2 : Int) - (denominator.log2 : Int)
  let (above, below) := scaleDown numerator denominator guess
  if below ≤ above then guess else guess - 1

def Format.nearest (format : Format) (numerator denominator : Nat) : Nat :=
  let lead := (format.precision - 1 : Nat)
  let place := max format.leastExponent (quotientExponent numerator denominator - lead)
  let (above, below) := scaleDown numerator denominator place
  let pattern := (place - format.leastExponent).toNat * Nat.pow 2 lead + roundQuotient above below
  min pattern format.infinity

/-- The magnitude of the value nearest to `digits * 10 ^ exponent`. Exponents far out of range are
settled without the power of ten: ten lies between the third and the fourth power of two. -/
def Format.ofDecimal (format : Format) (digits : Nat) (exponent : Int) : Nat :=
  if digits = 0 then 0
  else if 0 ≤ exponent then
    if (format.overflowExponent : Int) ≤ digits.log2 + 3 * exponent then format.infinity
    else format.nearest (digits * Nat.pow 10 exponent.toNat) 1
  else
    if digits.log2 + 1 + 3 * exponent < format.leastExponent then 0
    else format.nearest digits (Nat.pow 10 (-exponent).toNat)

inductive FloatValue where
  | nan
  | number (negative : Bool) (magnitude : Nat)
deriving DecidableEq

/-- The stored pattern of a value; a value that is not a number has many and gets none. -/
def FloatValue.pattern? (format : Format) : FloatValue → Option Nat
  | .nan => none
  | .number negative magnitude =>
      let signWeight := Nat.pow 2 (format.precision - 1 + format.exponentBits)
      some (if negative then signWeight + magnitude else magnitude)

end SchemaScope.Literal
