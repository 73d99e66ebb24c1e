import SchemaScope.Declaration

/-!
Schema files and resources.

A schema file is a completely parsed file: its package, its imports and its declarations. A resource
is what is held for a uri, which is a schema file or, if no such could be built, declarations alone.
-/

set_option autoImplicit false

namespace SchemaScope

/-- How an import passes on what it imports. Only a public import does so. -/
inductive ImportMode where
  | plain
  | publicly
  | weak
deriving DecidableEq

structure Import where
  path : String
  mode : ImportMode
deriving DecidableEq

def Import.isPublic (statement : Import) : Bool := statement.mode = .publicly

structure SchemaFile where
  id : FileId
  uri : String
  package : Package
  imports : List Import
  declarations : Forest Node
deriving DecidableEq

def SchemaFile.publicImports (file : SchemaFile) : List Import :=
  file.imports.filter Import.isPublic

/-- Neither a plain nor a weak import is passed on. -/
theorem SchemaFile.mem_publicImports {file : SchemaFile} {statement : Import} :
    statement ∈ file.publicImports ↔ statement ∈ file.imports ∧ statement.mode = .publicly := by
  simp [publicImports, Import.isPublic]

/-- What a parser made of a resource. Fragments have no package and no imports. -/
inductive Contents where
  | complete (file : SchemaFile)
  | fragments (declarations : Forest Node)
deriving DecidableEq

structure Resource where
  id : FileId
  uri : String
  contents : Contents
deriving DecidableEq

def SchemaFile.toResource (file : SchemaFile) : Resource :=
  ⟨file.id, file.uri, .complete file⟩

namespace Resource

def file? (resource : Resource) : Option SchemaFile :=
  match resource.contents with
  | .complete file => some file
  | .fragments _ => none

def declarations (resource : Resource) : Forest Node :=
  match resource.contents with
  | .complete file => file.declarations
  | .fragments declarations => declarations

/-- The package of a resource. Fragments are in the default package. -/
def package (resource : Resource) : Package :=
  match resource.contents with
  | .complete file => file.package
  | .fragments _ => .default

def label (resource : Resource) : String :=
  resource.uri ++ " (" ++ resource.id.label ++ ")"

end Resource

end SchemaScope
