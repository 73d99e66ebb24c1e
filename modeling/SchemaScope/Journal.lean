import SchemaScope.Navigation

/-!
The journal: events that tell a host what happened on the way to an answer.

Events are read off the answers and the findings. Each event has a severity, a message and named
fields, and an operation emits its events in the order of this module's lists.
-/

set_option autoImplicit false

namespace SchemaScope

inductive Severity where
  | trace
  | debug
  | warn
deriving DecidableEq

def Severity.label : Severity → String
  | .trace => "TRACE"
  | .debug => "DEBUG"
  | .warn => "WARN"

inductive Event where
  | found (finding : Finding)
  | scopeBuilt (uri : String) (filter : Filter) (symbols : Nat)
  | idReassigned (id : FileId) (evicted uri : String)
  | navigated (query : Query) (ending : Ending)

namespace Event

def severity : Event → Severity
  | .found (.unresolved _ _) => .debug
  | .found _ => .trace
  | .scopeBuilt _ _ _ => .debug
  | .idReassigned _ _ _ => .warn
  | .navigated _ _ => .debug

def message : Event → String
  | .found (.catalogue _) => "import resolves to built-in descriptor"
  | .found (.unresolved _ _) => "import contributes no symbols"
  | .found (.repeated _ _) => "import already walked, skipping"
  | .found (.related _ _) => "related package, merging as local types"
  | .found (.unrelated _ _) => "collecting fully qualified declarations"
  | .scopeBuilt _ _ _ => "built type scope"
  | .idReassigned _ _ _ => "file id reassigned to a different uri"
  | .navigated _ (.opened _ _) => "navigating to declaration"
  | .navigated _ .notIndexed => "navigation cancelled: file is not indexed"
  | .navigated _ .unresolved => "navigation cancelled: no candidate resolved"

def fields : Event → List (String × String)
  | .found (.catalogue path) => [("import", path)]
  | .found (.unresolved path failure) => [("import", path), ("error", failure.message)]
  | .found (.repeated path package) => [("import", path), ("package", package.render)]
  | .found (.related path file) => [("import", path), ("package", file.package.render)]
  | .found (.unrelated path _) => [("import", path)]
  | .scopeBuilt uri filter symbols =>
      [("file", uri), ("filter", filter.term), ("symbols", toString symbols)]
  | .idReassigned id evicted uri => [("id", id.label), ("evicted", evicted), ("uri", uri)]
  | .navigated _ (.opened name declaration) =>
      [("name", name.render), ("kind", declaration.kind.label), ("uri", declaration.uri)]
  | .navigated query _ => [("query", query.render)]

end Event

namespace Registry

def insertEvents (registry : Registry) (resource : Resource) : List Event :=
  match registry.evicted? resource with
  | some owner => [.idReassigned resource.id owner (Text.canonicalPath resource.uri)]
  | none => []

def importEvents (registry : Registry) (settings : Settings) (file : SchemaFile) : List Event :=
  (registry.findings settings file).map Event.found

def scopeEvents (registry : Registry) (settings : Settings) (file : SchemaFile)
    (filter : Filter) : List Event :=
  registry.importEvents settings file
    ++ [.scopeBuilt file.uri filter (registry.visibleScope settings file filter).size]

def findEvents (registry : Registry) (settings : Settings) (path : String) : List Event :=
  match (registry.get? path).bind Resource.file? with
  | some file => registry.scopeEvents settings file .all
  | none => []

def navigateEvents (registry : Registry) (settings : Settings) (query : Query) : List Event :=
  registry.findEvents settings query.path
    ++ [.navigated query (registry.navigate settings query).ending]

end Registry

end SchemaScope
