/-!
Digits of number literals and the numbers that strings of digits stand for. Only ASCII digits count.
-/

set_option autoImplicit false

namespace SchemaScope.Literal

def decimalDigit? (char : Char) : Option Nat :=
  if '0' ≤ char ∧ char ≤ '9' then some (char.toNat - 48) else none

def hexDigit? (char : Char) : Option Nat :=
  if '0' ≤ char ∧ char ≤ '9' then some (char.toNat - 48)
  else if 'a' ≤ char ∧ char ≤ 'f' then some (char.toNat - 87)
  else if 'A' ≤ char ∧ char ≤ 'F' then some (char.toNat - 55)
  else none

def isDecimalDigit (char : Char) : Bool :=
  (decimalDigit? char).isSome

def isHexDigit (char : Char) : Bool :=
  (hexDigit? char).isSome

/-- The number that digits stand for in a base, most significant digit first. -/
def numberOf (base : Nat) (digits : List Nat) : Nat :=
  digits.foldl (fun total digit => total * base + digit) 0

def decimalNumber (chars : List Char) : Nat :=
  numberOf 10 (chars.filterMap decimalDigit?)

def hexNumber (chars : List Char) : Nat :=
  numberOf 16 (chars.filterMap hexDigit?)

def splitSign : List Char → Bool × List Char
  | '-' :: rest => (true, rest)
  | '+' :: rest => (false, rest)
  | chars => (false, chars)

def signed (negative : Bool) (magnitude : Nat) : Int :=
  if negative then -(magnitude : Int) else magnitude

end SchemaScope.Literal
