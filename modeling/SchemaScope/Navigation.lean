import SchemaScope.Scope.Walk

/-!
Navigation to declarations.

A name is looked up in the scope of a file and, after that, in the file's own listing. A query goes
through its names in order, asks the editor to open the declaration of the first one that is found,
and stops there.
-/

set_option autoImplicit false

namespace SchemaScope

/-- The names that a declaration may have, in the order to try them, and the file they are used
in. -/
structure Query where
  names : List QualifiedName
  path : String

def Query.render (query : Query) : String :=
  "Query[qualifiedNames=[" ++ ", ".intercalate (query.names.map QualifiedName.render)
    ++ "], filePath=" ++ query.path ++ "]"

structure Location where
  uri : String
  range : TextRange
deriving DecidableEq

def Declaration.location (declaration : Declaration) : Location :=
  ⟨declaration.uri, declaration.range⟩

/-! ## The editor -/

/-- What happens to an editor: the locations it is asked to open, each with whether to activate
it. -/
abbrev Editing := StateM (List (Location × Bool))

def openLocation (location : Location) (activate : Bool) : Editing Unit :=
  modify fun openings => openings ++ [(location, activate)]

inductive Ending where
  | opened (name : QualifiedName) (declaration : Declaration)
  /-- There is no parsed resource at the path. -/
  | notIndexed
  /-- No name was found. -/
  | unresolved
deriving DecidableEq

/-- Goes through names up to the first one that a scope has, and opens its declaration. -/
def openFirst (scope : SymbolIndex) (activate : Bool) : List QualifiedName → Editing Ending
  | [] => pure .unresolved
  | name :: rest =>
      match scope.lookup? name with
      | some declaration => do
          openLocation declaration.location activate
          pure (.opened name declaration)
      | none => openFirst scope activate rest

/-- What came of a query, and everything that the editor was asked to open for it. -/
structure Navigation where
  ending : Ending
  openings : List (Location × Bool)
deriving DecidableEq

def Navigation.succeeded (navigation : Navigation) : Bool :=
  match navigation.ending with
  | .opened _ _ => true
  | _ => false

namespace Registry

def navigationScope (registry : Registry) (settings : Settings) (resource : Resource) :
    SymbolIndex :=
  let scope := match resource.file? with
    | some file => registry.visibleScope settings file .all
    | none => .empty
  scope.extend (resource.listing .all)

def find? (registry : Registry) (settings : Settings) (path : String) (name : QualifiedName) :
    Option Declaration := do
  let resource ← registry.get? path
  (registry.navigationScope settings resource).lookup? name

def answerQuery (registry : Registry) (settings : Settings) (query : Query) : Editing Ending :=
  match registry.get? query.path with
  | none => pure .notIndexed
  | some resource =>
      openFirst (registry.navigationScope settings resource) settings.activateEditor query.names

def navigate (registry : Registry) (settings : Settings) (query : Query) : Navigation :=
  let (ending, openings) := (registry.answerQuery settings query).run []
  ⟨ending, openings⟩

end Registry

end SchemaScope
