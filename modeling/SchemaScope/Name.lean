import SchemaScope.Text

/-!
Names and packages.

A qualified name and a package are lists of segments, and they are equal when their segments are,
whatever text they were written as. A declaration can be named by itself, with some of its innermost
enclosing scopes, with all of them, or with its package as well.
-/

set_option autoImplicit false

namespace SchemaScope

/-! ## Qualified names -/

structure QualifiedName where
  segments : List String
deriving DecidableEq

namespace QualifiedName

def simple (segment : String) : QualifiedName := ⟨[segment]⟩

def parse (dotted : String) : QualifiedName := ⟨Text.segments dotted⟩

def render (name : QualifiedName) : String := Text.joinDots name.segments

def term (name : QualifiedName) : String := "QualifiedName(" ++ name.render ++ ")"

def length (name : QualifiedName) : Nat := name.segments.length

def isEmpty (name : QualifiedName) : Bool := name.segments.isEmpty

def last? (name : QualifiedName) : Option String := name.segments.getLast?

def append (name : QualifiedName) (segment : String) : QualifiedName :=
  ⟨name.segments ++ [segment]⟩

def prepend (name : QualifiedName) (outer : List String) : QualifiedName :=
  ⟨outer ++ name.segments⟩

/-- Whether a name comes no later than another: segment by segment, and an initial part first.
Segments compare by code points, which is also the order of their encoded bytes. -/
def le (left right : QualifiedName) : Bool :=
  (compare left.segments right.segments).isLE

def sort (names : List QualifiedName) : List QualifiedName :=
  names.mergeSort le

end QualifiedName

/-! ## Packages -/

/-- A package given by its segments. The default package has none. -/
structure Package where
  segments : List String
deriving DecidableEq

namespace Package

def default : Package := ⟨[]⟩

def parse (dotted : String) : Package := ⟨Text.segments dotted⟩

def render (package : Package) : String := Text.joinDots package.segments

def term (package : Package) : String := "Package(" ++ package.render ++ ")"

def isDefault (package : Package) : Bool := package.segments.isEmpty

/-- Whether one package contains the other or is equal to it. Whole segments are compared, so `a.b`
does not contain `a.bc`. -/
def related (left right : Package) : Bool :=
  left.segments.isPrefixOf right.segments || right.segments.isPrefixOf left.segments

end Package

/-! ## Forms of a declared name -/

/-- The forms of a name without its package, from the bare name to the whole chain of enclosing
scopes. The scopes are given outermost first. -/
def scopedForms (name : String) : List String → List QualifiedName
  | [] => [.simple name]
  | outer :: inner => scopedForms name inner ++ [⟨outer :: inner ++ [name]⟩]

def fullName (name : String) (scopes : List String) (package : Package) : QualifiedName :=
  ⟨package.segments ++ scopes ++ [name]⟩

/-- All forms of a name, the most local first. In the default package the full name is already the
last form without a package and is not repeated. -/
def nameForms (name : String) (scopes : List String) (package : Package) : List QualifiedName :=
  scopedForms name scopes ++ if package.isDefault then [] else [fullName name scopes package]

end SchemaScope
