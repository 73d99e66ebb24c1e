import SchemaScope.Registry

/-!
What the updates of a registry come to.

An update changes the registry field by field. For each one its whole run is given here: its answer,
the registry after it, and the registry that it leaves when the counter of ids runs out. The counter
is moved before anything else is written for a new id, and storing a resource never runs out, so an
operation that fails has changed nothing.
-/

set_option autoImplicit false

namespace SchemaScope.Registry

variable {registry : Registry} {uri : String}

/-- The answer of an update and the registry after it, unless it fails. -/
def Update.answer? {α : Type} (update : Update α) (registry : Registry) : Option (α × Registry) :=
  match update.run registry with
  | .ok value next => some (value, next)
  | .error _ _ => none

def idFor? (registry : Registry) (uri : String) : Option (FileId × Registry) :=
  (idFor uri).answer? registry

def markUnparseable? (registry : Registry) (uri reason : String) : Option Registry :=
  ((markUnparseable uri reason).answer? registry).map Prod.snd

/-- The registry after an operation, if the operation does not fail. -/
def attempt? (registry : Registry) (operation : Operation) : Option Registry :=
  ((perform operation).answer? registry).map Prod.snd

/-! ## Requests for an id -/

private theorem run_advancePast (index : UInt32) (registry : Registry) :
    (advancePast index).run registry =
      if index = 0xFFFFFFFF then .error .exhausted registry
      else .ok () { registry with nextId := index + 1 } := by
  unfold advancePast successor?
  by_cases last : index = 0xFFFFFFFF
  · simp only [if_pos last, EStateM.run_throw]
  · simp only [if_neg last, EStateM.run_modify]

/-- The registry with its next id given to a uri. -/
def number (registry : Registry) (key : String) : Registry :=
  { registry with
    ids := registry.ids.insert key ⟨registry.nextId⟩
    uris := registry.uris.insert ⟨registry.nextId⟩ key
    nextId := registry.nextId + 1 }

/-- A uri that has an id is answered at once. For any other the counter is moved first, and if it
cannot move the registry is still as it was. -/
theorem run_idFor (uri : String) (registry : Registry) :
    (idFor uri).run registry =
      match registry.ids.find? (Text.canonicalPath uri) with
      | some id => .ok id registry
      | none =>
          if registry.nextId = 0xFFFFFFFF then .error .exhausted registry
          else .ok ⟨registry.nextId⟩ (registry.number (Text.canonicalPath uri)) := by
  simp only [idFor, EStateM.run_bind, EStateM.run_get]
  cases held : registry.ids.find? (Text.canonicalPath uri) with
  | some id => rfl
  | none =>
      simp only [EStateM.run_bind, run_advancePast]
      by_cases last : registry.nextId = 0xFFFFFFFF
      · simp only [if_pos last]
      · simp only [if_neg last, EStateM.run_modify, EStateM.run_pure, number]

/-- The mark is written after the request for an id, so it is not written when that fails. -/
theorem run_markUnparseable (uri reason : String) (registry : Registry) :
    (markUnparseable uri reason).run registry =
      match (idFor uri).run registry with
      | .ok id next =>
          .ok () { next with outcomes := next.outcomes.insert id (.failed reason) }
      | .error failure left => .error failure left := by
  simp only [markUnparseable, EStateM.run_bind, EStateM.run_modify]
  cases (idFor uri).run registry <;> rfl

/-! ## Storing a resource -/

def releaseOther (registry : Registry) (key : String) (id : FileId) : Registry :=
  match registry.ids.find? key with
  | some previous =>
      if previous = id then registry
      else
        { registry with
          uris := registry.uris.erase previous
          outcomes := registry.outcomes.erase previous }
  | none => registry

def evict (registry : Registry) (resource : Resource) : Registry :=
  match registry.evicted? resource with
  | some owner => { registry with ids := registry.ids.erase owner }
  | none => registry

def nextIdAfter (nextId : UInt32) (id : FileId) : UInt32 :=
  if !id.isBuiltin && nextId ≤ id.index then id.index + 1 else nextId

/-- The registry with a parsed resource under its own id and uri. -/
def insert (registry : Registry) (resource : Resource) : Registry :=
  let key := Text.canonicalPath resource.uri
  let released := (registry.releaseOther key resource.id).evict resource
  { ids := released.ids.insert key resource.id
    uris := released.uris.insert resource.id key
    outcomes := released.outcomes.insert resource.id (.parsed resource)
    nextId := nextIdAfter registry.nextId resource.id }

@[simp] theorem ids_releaseOther (registry : Registry) (key : String) (id : FileId) :
    (registry.releaseOther key id).ids = registry.ids := by
  unfold releaseOther
  split
  next => split <;> rfl
  next => rfl

@[simp] private theorem nextId_releaseOther (registry : Registry) (key : String) (id : FileId) :
    (registry.releaseOther key id).nextId = registry.nextId := by
  unfold releaseOther
  split
  next => split <;> rfl
  next => rfl

@[simp] theorem uris_evict (registry : Registry) (resource : Resource) :
    (registry.evict resource).uris = registry.uris := by
  unfold evict
  split <;> rfl

@[simp] theorem outcomes_evict (registry : Registry) (resource : Resource) :
    (registry.evict resource).outcomes = registry.outcomes := by
  unfold evict
  split <;> rfl

private theorem run_bindUri (key : String) (id : FileId) (registry : Registry) :
    (bindUri key id).run registry =
      .ok () { registry.releaseOther key id with ids := registry.ids.insert key id } := by
  simp only [bindUri, EStateM.run_bind, EStateM.run_get, EStateM.run_modify, releaseOther]
  cases registry.ids.find? key with
  | none => rfl
  | some previous =>
      by_cases same : previous = id
      · simp [same]
      · simp [same]

private theorem run_bindId (resource : Resource) (registry : Registry) :
    (bindId resource.id (Text.canonicalPath resource.uri)).run
        { registry with ids := registry.ids.insert (Text.canonicalPath resource.uri) resource.id } =
      .ok ()
        { registry with
          ids := (registry.evict resource).ids.insert (Text.canonicalPath resource.uri) resource.id
          uris := registry.uris.insert resource.id (Text.canonicalPath resource.uri) } := by
  simp only [bindId, EStateM.run_bind, EStateM.run_get, EStateM.run_modify, evict, evicted?]
  cases registry.uris.find? resource.id with
  | none => rfl
  | some owner =>
      by_cases same : owner = Text.canonicalPath resource.uri
      · simp [same, Option.filter_some]
      · have moved := registry.ids.erase_insert_of_ne resource.id (Ne.symm same)
        simp [same, moved, Option.filter_some]

/-- The counter never runs out here, since the id of the catalogue does not move it. -/
theorem run_store (resource : Resource) (registry : Registry) :
    (store resource).run registry = .ok () (registry.insert resource) := by
  have bound := run_bindId resource
    (registry.releaseOther (Text.canonicalPath resource.uri) resource.id)
  rw [ids_releaseOther] at bound
  simp only [store, EStateM.run_bind, run_bindUri, bound, EStateM.run_get]
  by_cases advances : (!resource.id.isBuiltin && registry.nextId ≤ resource.id.index) = true
  · have ordinary : resource.id.index ≠ 0xFFFFFFFF := by
      intro last
      have builtin : resource.id = .builtin := congrArg FileId.mk last
      simp [builtin, FileId.isBuiltin] at advances
    simp [advances, run_advancePast, ordinary, insert, nextIdAfter]
  · simp [advances, insert, nextIdAfter]

/-! ## Operations -/

theorem idFor?_eq (registry : Registry) (uri : String) :
    registry.idFor? uri =
      match registry.ids.find? (Text.canonicalPath uri) with
      | some id => some (id, registry)
      | none =>
          if registry.nextId = 0xFFFFFFFF then none
          else some (⟨registry.nextId⟩, registry.number (Text.canonicalPath uri)) := by
  simp only [idFor?, Update.answer?, run_idFor]
  cases registry.ids.find? (Text.canonicalPath uri) with
  | some id => rfl
  | none => by_cases last : registry.nextId = 0xFFFFFFFF <;> simp [last]

theorem markUnparseable?_eq (registry : Registry) (uri reason : String) :
    registry.markUnparseable? uri reason =
      (registry.idFor? uri).map fun (id, numbered) =>
        { numbered with outcomes := numbered.outcomes.insert id (.failed reason) } := by
  simp only [markUnparseable?, idFor?, Update.answer?, run_markUnparseable]
  cases (idFor uri).run registry <;> rfl

theorem attempt?_idFor (registry : Registry) (uri : String) :
    registry.attempt? (.idFor uri) = (registry.idFor? uri).map Prod.snd := by
  simp only [attempt?, perform, idFor?, Update.answer?, EStateM.run_bind, EStateM.run_pure]
  cases (idFor uri).run registry <;> rfl

/-- Storing a resource never fails. -/
theorem attempt?_insert (registry : Registry) (resource : Resource) :
    registry.attempt? (.insert resource) = some (registry.insert resource) := by
  simp only [attempt?, perform, Update.answer?, run_store, Option.map_some]

theorem attempt?_markUnparseable (registry : Registry) (uri reason : String) :
    registry.attempt? (.markUnparseable uri reason) = registry.markUnparseable? uri reason := rfl

theorem attempt?_remove (registry : Registry) (uri : String) :
    registry.attempt? (.remove uri) = some (registry.remove uri) := rfl

private theorem left_of_run_idFor {failure : Failure} {left : Registry}
    (failed : (idFor uri).run registry = .error failure left) : left = registry := by
  rw [run_idFor] at failed
  split at failed
  next => cases failed
  next =>
      split at failed
      next => cases failed; rfl
      next => cases failed

/-- What only writes after a request for an id fails where the request fails. -/
private theorem left_of_run_idFor_bind {α : Type} {write : FileId → Update α} {failure : Failure}
    {left : Registry} (writes : ∀ id state, ∃ answer next, (write id).run state = .ok answer next)
    (failed : (idFor uri >>= write).run registry = .error failure left) : left = registry := by
  rw [EStateM.run_bind] at failed
  cases requested : (idFor uri).run registry with
  | ok id state =>
      obtain ⟨answer, next, written⟩ := writes id state
      simp [requested, written] at failed
  | error other state =>
      rw [requested] at failed
      cases failed
      exact left_of_run_idFor requested

/-- An operation that fails leaves the registry as it was. -/
theorem left_of_run_perform {operation : Operation} {failure : Failure} {left : Registry}
    (failed : (perform operation).run registry = .error failure left) : left = registry := by
  cases operation with
  | idFor uri => exact left_of_run_idFor_bind (fun _ _ => ⟨_, _, rfl⟩) failed
  | insert resource =>
      rw [perform, run_store] at failed
      cases failed
  | markUnparseable uri reason => exact left_of_run_idFor_bind (fun _ _ => ⟨_, _, rfl⟩) failed
  | remove uri => cases failed

/-- The registry that a failed operation leaves is the one that it was given. -/
theorem apply_eq_attempt? (registry : Registry) (operation : Operation) :
    registry.apply operation = (registry.attempt? operation).getD registry := by
  unfold apply Update.left attempt? Update.answer?
  cases performed : (perform operation).run registry with
  | ok answer next => rfl
  | error failure left => exact left_of_run_perform performed

@[simp] theorem apply_idFor (registry : Registry) (uri : String) :
    registry.apply (.idFor uri) = ((registry.idFor? uri).map Prod.snd).getD registry := by
  rw [apply_eq_attempt?, attempt?_idFor]

@[simp] theorem apply_insert (registry : Registry) (resource : Resource) :
    registry.apply (.insert resource) = registry.insert resource := by
  rw [apply_eq_attempt?, attempt?_insert, Option.getD_some]

@[simp] theorem apply_markUnparseable (registry : Registry) (uri reason : String) :
    registry.apply (.markUnparseable uri reason) =
      (registry.markUnparseable? uri reason).getD registry := by
  rw [apply_eq_attempt?, attempt?_markUnparseable]

@[simp] theorem apply_remove (registry : Registry) (uri : String) :
    registry.apply (.remove uri) = registry.remove uri := by
  rw [apply_eq_attempt?, attempt?_remove, Option.getD_some]

end SchemaScope.Registry
