import SchemaScope.Literal.Conversion
import SchemaScope.Literal.Digit

/-!
Signed 64-bit integers in decimal and hexadecimal notation.

A decimal literal is read from left to right, and the first problem met is its fault: a number that
leaves the range is reported even when a bad character follows. A hexadecimal literal is checked as
a whole, first its form and then its range.
-/

set_option autoImplicit false

namespace SchemaScope.Literal

def largestMagnitude (negative : Bool) : Nat :=
  if negative then 0x8000000000000000 else 0x7FFFFFFFFFFFFFFF

def overflowFault (negative : Bool) : Fault :=
  if negative then .tooSmall else .tooLarge

/-- Reads further decimal digits after those that gave `total`. -/
def readDigits (negative : Bool) (total : Nat) : List Char → Except Fault Nat
  | [] => .ok total
  | char :: rest =>
      match decimalDigit? char with
      | none => .error .invalidDigit
      | some digit =>
          let next := total * 10 + digit
          if next ≤ largestMagnitude negative then readDigits negative next rest
          else .error (overflowFault negative)

/-- Reads a decimal literal: one optional sign and at least one digit. -/
def readLong (literal : List Char) : Except Fault Int :=
  match splitSign literal with
  | (_, []) => .error .invalidDigit
  | (negative, digits) => (readDigits negative 0 digits).map (signed negative)

def hexDigits? : List Char → Option (List Char)
  | '0' :: 'x' :: digits => some digits
  | '0' :: 'X' :: digits => some digits
  | _ => none

def splitMinus : List Char → Bool × List Char
  | '-' :: rest => (true, rest)
  | chars => (false, chars)

/-- Reads a hexadecimal literal: an optional minus, `0x` or `0X`, and at least one digit. -/
def readHex (literal : List Char) : Except Fault Int :=
  let (negative, unsigned) := splitMinus literal
  match hexDigits? unsigned with
  | none => .error .missingHexMark
  | some digits =>
      if digits.isEmpty || !digits.all isHexDigit then .error .missingHexDigits
      else if UInt64.size ≤ hexNumber digits then .error .tooLarge
      else if hexNumber digits ≤ largestMagnitude negative then
        .ok (signed negative (hexNumber digits))
      else .error .outsideSignedRange

def longValue (text : String) (position : Position) : Except ConversionError Int :=
  convert .long readLong text position

def hexValue (text : String) (position : Position) : Except ConversionError Int :=
  convert .hex readHex text position

end SchemaScope.Literal
