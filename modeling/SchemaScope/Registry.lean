import SchemaScope.Collection.Table
import SchemaScope.Schema.File

/-!
The registry of resources.

It gives file ids to uris, holds for each uri the latest parsed resource, and remembers which
resources could not be parsed. Uris are compared in their canonical spelling. A uri has one id and
an id has one uri; a resource that arrives with its own id takes that id, and whoever held it loses
it. Ids are handed out in ascending order and are never handed out again.

Updates change the registry in place, one field after the other, and the counter of ids may run out
on the way. An update that fails leaves whatever it has done so far, so its order matters.
-/

set_option autoImplicit false

namespace SchemaScope

inductive Outcome where
  | parsed (resource : Resource)
  | failed (reason : String)
deriving DecidableEq

/-- Why a uri has no parsed resource. The uri is the one that was asked for. -/
inductive ResolveFailure where
  | notFound (uri : String)
  | unparseable (uri : String) (reason : String)
deriving DecidableEq

namespace ResolveFailure

def uri : ResolveFailure → String
  | .notFound uri => uri
  | .unparseable uri _ => uri

def message : ResolveFailure → String
  | .notFound uri => "resource not found: " ++ uri
  | .unparseable uri reason => "resource " ++ uri ++ " could not be parsed: " ++ reason

end ResolveFailure

/-- The state of the registry. `ids` and `uris` are each other's inverse, and an outcome is kept for
ids that have a uri. -/
structure Registry where
  ids : Table String FileId
  uris : Table FileId String
  outcomes : Table FileId Outcome
  nextId : UInt32

namespace Registry

def empty : Registry := ⟨.empty, .empty, .empty, 0⟩

/-! ## Updates -/

inductive Failure where
  | exhausted
deriving DecidableEq

/-- A change of the registry in place. A failure keeps the registry as it was at that point. -/
abbrev Update := EStateM Failure Registry

namespace Update

variable {α : Type}

/-- The registry that an update leaves behind, whether it fails or not. -/
def left (update : Update α) (registry : Registry) : Registry :=
  match update.run registry with
  | .ok _ next => next
  | .error _ next => next

end Update

/-- Moves the counter of ids on to the number after an index. -/
def advancePast (index : UInt32) : Update Unit :=
  match successor? index with
  | some next => modify fun registry => { registry with nextId := next }
  | none => throw .exhausted

/-- The id of a uri, a fresh one if it has none yet. The counter moves on before either table is
written. -/
def idFor (uri : String) : Update FileId := do
  let key := Text.canonicalPath uri
  let registry ← get
  match registry.ids.find? key with
  | some id => pure id
  | none =>
      let id : FileId := ⟨registry.nextId⟩
      advancePast registry.nextId
      modify fun registry => { registry with ids := registry.ids.insert key id }
      modify fun registry => { registry with uris := registry.uris.insert id key }
      pure id

def markUnparseable (uri reason : String) : Update Unit := do
  let id ← idFor uri
  modify fun registry => { registry with outcomes := registry.outcomes.insert id (.failed reason) }

/-- Binds a uri to an id, and forgets what is known under another id that the uri had. -/
def bindUri (key : String) (id : FileId) : Update Unit := do
  let previous? := (← get).ids.find? key
  modify fun registry => { registry with ids := registry.ids.insert key id }
  match previous? with
  | some previous =>
      if previous ≠ id then
        modify fun registry =>
          { registry with
            uris := registry.uris.erase previous
            outcomes := registry.outcomes.erase previous }
  | none => pure ()

/-- Binds an id to a uri, and forgets another uri that had the id. -/
def bindId (id : FileId) (key : String) : Update Unit := do
  let owner? := (← get).uris.find? id
  modify fun registry => { registry with uris := registry.uris.insert id key }
  match owner? with
  | some owner =>
      if owner ≠ key then
        modify fun registry => { registry with ids := registry.ids.erase owner }
  | none => pure ()

def store (resource : Resource) : Update Unit := do
  let key := Text.canonicalPath resource.uri
  bindUri key resource.id
  bindId resource.id key
  if !resource.id.isBuiltin && (← get).nextId ≤ resource.id.index then
    advancePast resource.id.index
  modify fun registry =>
    { registry with outcomes := registry.outcomes.insert resource.id (.parsed resource) }

def remove (registry : Registry) (uri : String) : Registry :=
  let key := Text.canonicalPath uri
  match registry.ids.find? key with
  | some id =>
      { registry with
        ids := registry.ids.erase key
        uris := registry.uris.erase id
        outcomes := registry.outcomes.erase id }
  | none => registry

/-! ## Answers -/

/-- The uri that loses its id when a resource is stored. -/
def evicted? (registry : Registry) (resource : Resource) : Option String :=
  (registry.uris.find? resource.id).filter fun owner =>
    !decide (owner = Text.canonicalPath resource.uri)

def outcome? (registry : Registry) (uri : String) : Option Outcome := do
  let id ← registry.ids.find? (Text.canonicalPath uri)
  registry.outcomes.find? id

def get? (registry : Registry) (uri : String) : Option Resource :=
  match registry.outcome? uri with
  | some (.parsed resource) => some resource
  | _ => none

def resolve (registry : Registry) (uri : String) : Except ResolveFailure Resource :=
  match registry.outcome? uri with
  | some (.parsed resource) => .ok resource
  | some (.failed reason) => .error (.unparseable uri reason)
  | none => .error (.notFound uri)

/-- An import path leads to a resource exactly when that is the latest one parsed there. -/
theorem resolve_eq_ok_iff {registry : Registry} {uri : String} {resource : Resource} :
    registry.resolve uri = .ok resource ↔ registry.get? uri = some resource := by
  unfold resolve get?
  cases registry.outcome? uri with
  | none => simp
  | some outcome => cases outcome <;> simp

def uri? (registry : Registry) (id : FileId) : Option String :=
  registry.uris.find? id

def size (registry : Registry) : Nat := registry.outcomes.size

def resources (registry : Registry) : List Resource :=
  registry.outcomes.values.filterMap fun outcome =>
    match outcome with
    | .parsed resource => some resource
    | .failed _ => none

/-! ## Histories -/

inductive Operation where
  | idFor (uri : String)
  | insert (resource : Resource)
  | markUnparseable (uri reason : String)
  | remove (uri : String)

def perform : Operation → Update Unit
  | .idFor uri => do
      let _ ← idFor uri
      pure ()
  | .insert resource => store resource
  | .markUnparseable uri reason => markUnparseable uri reason
  | .remove uri => modify fun registry => registry.remove uri

/-- The registry as an operation leaves it, also when it fails for want of an id. -/
def apply (registry : Registry) (operation : Operation) : Registry :=
  (perform operation).left registry

def after (history : List Operation) : Registry :=
  history.foldl apply empty

theorem after_concat (history : List Operation) (operation : Operation) :
    after (history ++ [operation]) = (after history).apply operation := by
  simp [after]

end Registry

end SchemaScope
