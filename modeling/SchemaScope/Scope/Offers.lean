import SchemaScope.Schema.File
import SchemaScope.Symbol.Index

/-!
The names that a file gives its own declarations.

Local names are seen from a level, which is the number of enclosing messages. A declaration is
offered under those of its forms that are not more local than the level, and always under its full
name. Only messages and groups are entered, so declarations inside other ones have no local names.

The listing of a resource has every declaration, at any depth and inside declarations of any kind,
under its full name. Messages, groups and services qualify the names inside them.
-/

set_option autoImplicit false

namespace SchemaScope

/-! ## Local names -/

/-- The forms of a name that are offered at a level, and the full name. -/
def offeredForms (level : Nat) (name : String) (scopes : List String) (package : Package) :
    List QualifiedName :=
  (nameForms name scopes package).drop level ++ [fullName name scopes package]

namespace SchemaFile

def ownOffers (file : SchemaFile) (filter : Filter) (level : Nat) (scopes : List String)
    (node : Node) : List Description :=
  if filter.accepts node.kind then
    (offeredForms level node.name scopes file.package).map fun name =>
      ⟨name, node.record file.id file.uri⟩
  else []

/-- The descriptions of a forest of declarations, node by node in pre-order. The level grows by one
with each message that is entered, without bound. -/
def localOffers (file : SchemaFile) (filter : Filter) (level : Nat) (scopes : List String) :
    Forest Node → List Description
  | .nil => []
  | .cons node children siblings =>
      let inner :=
        if node.kind.isMessageLike then
          file.localOffers filter (level + 1) (scopes ++ [node.name]) children
        else []
      file.ownOffers filter level scopes node ++ inner
        ++ file.localOffers filter level scopes siblings

/-- The same descriptions with the level as a 64-bit number, which has to stay one in every message
that is entered. -/
def localOffers? (file : SchemaFile) (filter : Filter) (level : UInt64) (scopes : List String) :
    Forest Node → Option (List Description)
  | .nil => some []
  | .cons node children siblings => do
      let inner ←
        if node.kind.isMessageLike then
          if level = 0xFFFFFFFFFFFFFFFF then none
          else file.localOffers? filter (level + 1) (scopes ++ [node.name]) children
        else some []
      let others ← file.localOffers? filter level scopes siblings
      pure (file.ownOffers filter level.toNat scopes node ++ inner ++ others)

def localNames (file : SchemaFile) (filter : Filter) (level : Nat) : SymbolIndex :=
  .ofList (file.localOffers filter level [] file.declarations)

/-- The local scope of a file: its names seen from the top level. No file that can be held in memory
is nested deeply enough for this level to overflow. -/
def localScope (file : SchemaFile) (filter : Filter) : SymbolIndex :=
  file.localNames filter 0

def localScopeAt? (file : SchemaFile) (filter : Filter) (level : UInt64) : Option SymbolIndex :=
  (file.localOffers? filter level [] file.declarations).map .ofList

end SchemaFile

/-! ## Listings -/

def Node.innerScopes (node : Node) (scopes : List String) : List String :=
  if node.kind.opensScope then scopes ++ [node.name] else scopes

namespace Resource

def fullOffers (resource : Resource) (filter : Filter) (scopes : List String) :
    Forest Node → List Description
  | .nil => []
  | .cons node children siblings =>
      let own := if filter.accepts node.kind then
          [⟨fullName node.name scopes resource.package, node.record resource.id resource.uri⟩]
        else []
      own ++ resource.fullOffers filter (node.innerScopes scopes) children
        ++ resource.fullOffers filter scopes siblings

def listing (resource : Resource) (filter : Filter) : List Description :=
  resource.fullOffers filter [] resource.declarations

end Resource

end SchemaScope
