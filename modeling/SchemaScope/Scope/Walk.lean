import SchemaScope.Registry
import SchemaScope.Scope.Catalogue

/-!
The walk along imports, and the scope of a file.

Every import of the starting file is met in order. A resource that is met is first followed through
its public imports, seen from its own package, and is then recorded itself. A resource is followed
once for each package from which it is imported, so the walk ends although imports may form cycles.

The walk does not collect declarations. It yields findings, from which the imported declarations and
the events are read off afterwards, so neither can influence where the walk goes. A file in a
related package contributes its local scope, as if its declarations were local. Any other resource
contributes its listing, and the descriptor import contributes the built-in catalogue.
-/

set_option autoImplicit false

namespace SchemaScope

inductive Finding where
  /-- The import stands for the built-in catalogue. -/
  | catalogue (path : String)
  /-- The import leads to no parsed resource. -/
  | unresolved (path : String) (failure : ResolveFailure)
  /-- The resource was met before from the same package. -/
  | repeated (path : String) (package : Package)
  /-- The import leads to a file in a package related to that of the importing file. -/
  | related (path : String) (file : SchemaFile)
  /-- The import leads to fragments or to a file in an unrelated package. -/
  | unrelated (path : String) (resource : Resource)
deriving DecidableEq

/-- A resource as met from a package: the uri of the resource and the package. -/
abbrev Encounter := String × Package

/-- What a part of the walk found, and everything met up to its end. -/
structure Trail where
  met : List Encounter
  findings : List Finding

namespace Walk

/-- A walk along the imports of a file in a package. It has no result if it may not go deep
enough. -/
abbrev Follow := Package → List Import → List Encounter → Option Trail

def recorded (package : Package) (path : String) (resource : Resource) : Finding :=
  match resource.file? with
  | some file =>
      if package.related file.package then .related path file else .unrelated path resource
  | none => .unrelated path resource

def followPublic (settings : Settings) (follow : Follow) (resource : Resource)
    (met : List Encounter) : Option Trail :=
  match resource.file? with
  | some file =>
      if settings.followPublic then follow file.package file.publicImports met
      else some ⟨met, []⟩
  | none => some ⟨met, []⟩

def meet (settings : Settings) (follow : Follow) (package : Package) (path : String)
    (resource : Resource) (met : List Encounter) : Option Trail :=
  if (resource.uri, package) ∈ met then some ⟨met, [.repeated path package]⟩
  else
    (followPublic settings follow resource ((resource.uri, package) :: met)).map fun inner =>
      ⟨inner.met, inner.findings ++ [recorded package path resource]⟩

def step (settings : Settings) (resolve : String → Except ResolveFailure Resource)
    (follow : Follow) (package : Package) (statement : Import) (met : List Encounter) :
    Option Trail :=
  if settings.isDescriptor statement.path then some ⟨met, [.catalogue statement.path]⟩
  else
    match resolve statement.path with
    | .error failure => some ⟨met, [.unresolved statement.path failure]⟩
    | .ok resource => meet settings follow package statement.path resource met

def steps (take : Import → List Encounter → Option Trail) :
    List Import → List Encounter → Option Trail
  | [], met => some ⟨met, []⟩
  | statement :: rest, met => do
      let first ← take statement met
      let others ← steps take rest first.met
      pure ⟨others.met, first.findings ++ others.findings⟩

/-- Walks along imports through at most `depth` levels of files. -/
def follow (settings : Settings) (resolve : String → Except ResolveFailure Resource) :
    Nat → Follow
  | 0 => fun _ _ _ => none
  | depth + 1 => fun package imports met =>
      steps (step settings resolve (follow settings resolve depth) package) imports met

end Walk

namespace Registry

def storedUris (registry : Registry) : List String :=
  (registry.resources.map Resource.uri).eraseDups

def packagesWith (registry : Registry) (file : SchemaFile) : List Package :=
  (file.package :: registry.resources.filterMap fun resource =>
    resource.file?.map SchemaFile.package).eraseDups

/-- A depth that no walk from a file exceeds. Each level below the first meets a stored resource
from a known package, and never the same one twice. -/
def walkDepth (registry : Registry) (file : SchemaFile) : Nat :=
  registry.storedUris.length * (registry.packagesWith file).length + 1

/-- What the imports of a file turn out to be, in the order of discovery. The walk may go as deep as
any walk from the file does, so it always has a result. -/
def findings (registry : Registry) (settings : Settings) (file : SchemaFile) : List Finding :=
  match Walk.follow settings registry.resolve (registry.walkDepth file) file.package file.imports []
  with
  | some trail => trail.findings
  | none => []

end Registry

/-! ## Scopes -/

def Finding.descriptions (settings : Settings) (filter : Filter) : Finding → List Description
  | .catalogue _ => Catalogue.listingAt filter settings.descriptorPath
  | .unresolved _ _ => []
  | .repeated _ _ => []
  | .related _ file => (file.localScope filter).entries
  | .unrelated _ resource => resource.listing filter

namespace Registry

def importedScope (registry : Registry) (settings : Settings) (file : SchemaFile)
    (filter : Filter) : SymbolIndex :=
  .ofList ((registry.findings settings file).flatMap (Finding.descriptions settings filter))

def visibleScope (registry : Registry) (settings : Settings) (file : SchemaFile)
    (filter : Filter) : SymbolIndex :=
  (file.localScope filter).merge (registry.importedScope settings file filter)

end Registry

end SchemaScope
