import SchemaScope.Schema.File

/-!
Builders put a file together declaration by declaration.

A declaration takes the next ordinal when it begins. What is inside of it is given to a builder of
its own, which goes on from there, and the declaration after it goes on from where that builder
stopped.
-/

set_option autoImplicit false

namespace SchemaScope

/-- The declarations that were added at one level, and the next ordinal. -/
structure DeclarationBuilder where
  next : UInt32
  added : Forest Node
deriving DecidableEq

namespace DeclarationBuilder

def start (next : UInt32) : DeclarationBuilder := ⟨next, .nil⟩

/-- Adds a declaration at the end, if the counter of ordinals can go on. -/
def declare? (builder : DeclarationBuilder) (outline : Outline)
    (inside : DeclarationBuilder → Option DeclarationBuilder) : Option DeclarationBuilder :=
  if builder.next = 0xFFFFFFFF then none
  else (inside (start (builder.next + 1))).map fun inner =>
    ⟨inner.next, builder.added ++ .tree ⟨outline, builder.next⟩ inner.added⟩

/-- Adds the trees of a forest, and inside of each its children. -/
def declareAll? : Forest Outline → DeclarationBuilder → Option DeclarationBuilder
  | .nil, builder => some builder
  | .cons outline children siblings, builder =>
      (builder.declare? outline (declareAll? children)).bind (declareAll? siblings)

end DeclarationBuilder

structure FileBuilder where
  id : FileId
  uri : String
  package : Package
  imports : List Import
  body : DeclarationBuilder
deriving DecidableEq

namespace FileBuilder

def start (id : FileId) (uri : String) : FileBuilder :=
  ⟨id, uri, .default, [], .start 0⟩

def inPackage (builder : FileBuilder) (dotted : String) : FileBuilder :=
  { builder with package := .parse dotted }

def importing (builder : FileBuilder) (statement : Import) : FileBuilder :=
  { builder with imports := builder.imports ++ [statement] }

def declare? (builder : FileBuilder) (outline : Outline)
    (inside : DeclarationBuilder → Option DeclarationBuilder) : Option FileBuilder :=
  (builder.body.declare? outline inside).map fun body => { builder with body }

/-- Adds the trees of a forest at the top level, each with all that is inside of it. -/
def declareAll? (builder : FileBuilder) (forest : Forest Outline) : Option FileBuilder :=
  forest.trees.foldlM
    (fun builder (outline, children) =>
      builder.declare? outline (DeclarationBuilder.declareAll? children))
    builder

def build (builder : FileBuilder) : SchemaFile :=
  { id := builder.id, uri := builder.uri, package := builder.package, imports := builder.imports,
    declarations := builder.body.added }

/-- What is left of a file that has no root: its declarations, without package and imports. -/
def buildFragments (builder : FileBuilder) : Resource :=
  ⟨builder.id, builder.uri, .fragments builder.body.added⟩

end FileBuilder

end SchemaScope
