import SchemaScope.Source
import SchemaScope.Text

/-!
Conversion of literal text.

A conversion drops the blanks around a literal and reads what is left; conversions differ only in
their target and their reader. A blank literal is an error of its own. Any other failure has a
fault, and its message quotes the literal as it was written, with its blanks.
-/

set_option autoImplicit false

namespace SchemaScope.Literal

inductive Target where
  | float
  | double
  | long
  | hex
deriving DecidableEq

def Target.label : Target → String
  | .float => "float"
  | .double => "double"
  | .long => "long"
  | .hex => "hex"

inductive Fault where
  | notFloat
  | invalidDigit
  | tooLarge
  | tooSmall
  | missingHexMark
  | missingHexDigits
  | outsideSignedRange
deriving DecidableEq

def Fault.message : Fault → String
  | .notFloat => "invalid float literal"
  | .invalidDigit => "invalid digit found in string"
  | .tooLarge => "number too large to fit in target type"
  | .tooSmall => "number too small to fit in target type"
  | .missingHexMark => "missing 0x prefix"
  | .missingHexDigits => "expected hexadecimal digits after 0x"
  | .outsideSignedRange => "out of range for a 64-bit integer"

inductive ConversionError where
  | empty (target : Target) (position : Position)
  | invalid (text : String) (target : Target) (position : Position) (fault : Fault)
deriving DecidableEq

namespace ConversionError

def position : ConversionError → Position
  | .empty _ position => position
  | .invalid _ _ position _ => position

/-- The fault behind the error; a blank literal has none. -/
def fault? : ConversionError → Option Fault
  | .empty _ _ => none
  | .invalid _ _ _ fault => some fault

def subject : ConversionError → String
  | .empty target _ => "couldn't convert empty string to " ++ target.label
  | .invalid text target _ _ => "couldn't convert '" ++ text ++ "' to " ++ target.label

def message? (error : ConversionError) : Option String :=
  error.position.render?.map fun place => error.subject ++ " at " ++ place

end ConversionError

/-- Reads a text without its surrounding blanks. A failure keeps the text as it was written. -/
def convert {α : Type} (target : Target) (read : List Char → Except Fault α)
    (text : String) (position : Position) : Except ConversionError α :=
  let literal := Text.trim text.toList
  if literal.isEmpty then .error (.empty target position)
  else (read literal).mapError (.invalid text target position)

end SchemaScope.Literal
