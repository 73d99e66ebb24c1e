import SchemaScope.Literal.Binary
import SchemaScope.Literal.Conversion
import SchemaScope.Literal.Digit

/-!
Floating-point literals: an optional sign, then a word for infinity or for no number, or a decimal
numeral with an optional point and an optional power of ten.
-/

set_option autoImplicit false

namespace SchemaScope.Literal

inductive Numeral where
  | nan
  | infinity
  | decimal (digits : Nat) (exponent : Int)
deriving DecidableEq

def word? (chars : List Char) : Option Numeral :=
  let lower := chars.map Char.toLower
  if lower = "nan".toList then some .nan
  else if lower = "inf".toList ∨ lower = "infinity".toList then some .infinity
  else none

/-- The power of ten after a mantissa: absent, or a mark, an optional sign and digits. -/
def powerOfTen? : List Char → Option Int
  | [] => some 0
  | mark :: rest =>
      if mark = 'e' ∨ mark = 'E' then
        let (negative, digits) := splitSign rest
        if digits.isEmpty || !digits.all isDecimalDigit then none
        else some (signed negative (decimalNumber digits))
      else none

def splitFraction : List Char → List Char × List Char
  | '.' :: rest => (rest.takeWhile isDecimalDigit, rest.dropWhile isDecimalDigit)
  | rest => ([], rest)

/-- A decimal numeral: digits, of which some may stand after a point, and a power of ten. At least
one digit stands before or after the point. -/
def decimal? (chars : List Char) : Option Numeral :=
  let whole := chars.takeWhile isDecimalDigit
  let (fraction, rest) := splitFraction (chars.dropWhile isDecimalDigit)
  if whole.isEmpty && fraction.isEmpty then none
  else (powerOfTen? rest).map fun power =>
    .decimal (decimalNumber (whole ++ fraction)) (power - fraction.length)

def Numeral.value (format : Format) (negative : Bool) : Numeral → FloatValue
  | .nan => .nan
  | .infinity => .number negative format.infinity
  | .decimal digits exponent => .number negative (format.ofDecimal digits exponent)

def readFloat (format : Format) (literal : List Char) : Except Fault FloatValue :=
  let (negative, rest) := splitSign literal
  match (decimal? rest).or (word? rest) with
  | none => .error .notFloat
  | some numeral => .ok (numeral.value format negative)

def floatValue (text : String) (position : Position) : Except ConversionError FloatValue :=
  convert .float (readFloat .single) text position

def doubleValue (text : String) (position : Position) : Except ConversionError FloatValue :=
  convert .double (readFloat .double) text position

end SchemaScope.Literal
