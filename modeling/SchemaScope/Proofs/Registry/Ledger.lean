import SchemaScope.Proofs.Registry.Consistency
import Mathlib.Data.List.Nodup

/-!
The registry as one map.

A ledger binds a canonical uri to its id and to what became of its resource. It has no second table
that could disagree with the first. Reading a registry as a ledger commutes with every operation, so
after any history all answers of the registry can be read off the ledger with the same history.
-/

set_option autoImplicit false

namespace SchemaScope

/-- The id of a uri, and the outcome of its resource if there is one. -/
structure Binding where
  id : FileId
  outcome : Option Outcome

/-- A map from canonical uris to bindings, and the next id to hand out. -/
structure Ledger where
  binding? : String → Option Binding
  nextId : UInt32

namespace Ledger

def empty : Ledger := ⟨fun _ => none, 0⟩

def bind (ledger : Ledger) (uri : String) (binding : Binding) : Ledger :=
  { ledger with binding? := fun other =>
      if other = uri then some binding else ledger.binding? other }

def release (ledger : Ledger) (id : FileId) : Ledger :=
  { ledger with binding? := fun other =>
      (ledger.binding? other).filter fun binding => !decide (binding.id = id) }

def idFor? (ledger : Ledger) (uri : String) : Option (FileId × Ledger) :=
  match ledger.binding? (Text.canonicalPath uri) with
  | some binding => some (binding.id, ledger)
  | none =>
      let id : FileId := ⟨ledger.nextId⟩
      if id.isBuiltin then none
      else some (id,
        { ledger.bind (Text.canonicalPath uri) ⟨id, none⟩ with nextId := ledger.nextId + 1 })

def insert (ledger : Ledger) (resource : Resource) : Ledger :=
  { (ledger.release resource.id).bind (Text.canonicalPath resource.uri)
      ⟨resource.id, some (.parsed resource)⟩ with
    nextId := Registry.nextIdAfter ledger.nextId resource.id }

def markUnparseable? (ledger : Ledger) (uri reason : String) : Option Ledger :=
  (ledger.idFor? uri).map fun (id, numbered) =>
    numbered.bind (Text.canonicalPath uri) ⟨id, some (.failed reason)⟩

def remove (ledger : Ledger) (uri : String) : Ledger :=
  { ledger with binding? := fun other =>
      if other = Text.canonicalPath uri then none else ledger.binding? other }

def apply (ledger : Ledger) : Registry.Operation → Ledger
  | .idFor uri => ((ledger.idFor? uri).map Prod.snd).getD ledger
  | .insert resource => ledger.insert resource
  | .markUnparseable uri reason => (ledger.markUnparseable? uri reason).getD ledger
  | .remove uri => ledger.remove uri

def after (history : List Registry.Operation) : Ledger :=
  history.foldl apply empty

theorem after_concat (history : List Registry.Operation) (operation : Registry.Operation) :
    after (history ++ [operation]) = (after history).apply operation := by
  simp [after]

def outcome? (ledger : Ledger) (uri : String) : Option Outcome :=
  (ledger.binding? (Text.canonicalPath uri)).bind Binding.outcome

/-- A ledger binds canonical uris, and no two of them to one id. -/
structure WellFormed (ledger : Ledger) : Prop where
  canonical : ∀ uri binding, ledger.binding? uri = some binding → Text.canonicalPath uri = uri
  distinct : ∀ uri other left right, ledger.binding? uri = some left →
    ledger.binding? other = some right → left.id = right.id → uri = other

end Ledger

namespace Registry

variable {registry : Registry}

def binding? (registry : Registry) (uri : String) : Option Binding :=
  (registry.ids.find? uri).map fun id => ⟨id, registry.outcomes.find? id⟩

def ledger (registry : Registry) : Ledger := ⟨registry.binding?, registry.nextId⟩

@[simp] theorem ledger_nextId (registry : Registry) :
    registry.ledger.nextId = registry.nextId := rfl

/-! ## Every operation on the ledger -/

private theorem Consistent.binding?_insert (consistent : registry.Consistent) (resource : Resource)
    (uri : String) :
    (registry.insert resource).binding? uri = (registry.ledger.insert resource).binding? uri := by
  simp only [binding?, find?_ids_insert, find?_outcomes_insert, ledger, Ledger.insert, Ledger.bind,
    Ledger.release]
  by_cases own : uri = Text.canonicalPath resource.uri
  · simp [own]
  · cases named : registry.ids.find? uri with
    | none => simp [own]
    | some id =>
        have held := (consistent.inverse uri id).mp named
        by_cases taken : id = resource.id
        · subst taken
          simp [own, held, Option.filter_some]
        · have notOwner : registry.uris.find? resource.id ≠ some uri := by
            intro owner
            have other := (consistent.inverse uri resource.id).mpr owner
            exact taken (Option.some.inj (named.symm.trans other))
          have notReleased : registry.ids.find? (Text.canonicalPath resource.uri) ≠ some id := by
            intro released
            exact own (consistent.uri_unique named released)
          simp [own, taken, notOwner, notReleased, Option.filter_some]

/-- On the ledger an insertion forgets one binding and makes one, whatever it does to the tables. -/
theorem Consistent.ledger_insert (consistent : registry.Consistent) (resource : Resource) :
    (registry.insert resource).ledger = registry.ledger.insert resource := by
  have bindings := funext (consistent.binding?_insert resource)
  simp only [ledger, bindings]
  rfl

private theorem Consistent.ledger_number (consistent : registry.Consistent) (key : String)
    (ordinary : (⟨registry.nextId⟩ : FileId) ≠ .builtin) :
    ledger { registry with
        ids := registry.ids.insert key ⟨registry.nextId⟩
        uris := registry.uris.insert ⟨registry.nextId⟩ key
        nextId := registry.nextId + 1 } =
      { registry.ledger.bind key ⟨⟨registry.nextId⟩, none⟩ with
        nextId := registry.nextId + 1 } := by
  have unused := consistent.outcome_none (consistent.uris_nextId ordinary)
  have bindings : ∀ other,
      ((registry.ids.insert key ⟨registry.nextId⟩).find? other).map
          (fun id => (⟨id, registry.outcomes.find? id⟩ : Binding)) =
        if other = key then some ⟨⟨registry.nextId⟩, none⟩ else registry.binding? other := by
    intro other
    rw [Table.find?_insert]
    split
    next => simp [unused]
    next => rfl
  simp only [ledger, Ledger.bind, Ledger.mk.injEq, and_true]
  exact funext bindings

/-- A request is answered alike, and fails alike, on the ledger. -/
theorem Consistent.ledger_idFor? (consistent : registry.Consistent) (uri : String) :
    registry.ledger.idFor? uri =
      (registry.idFor? uri).map fun result => (result.1, result.2.ledger) := by
  rw [Ledger.idFor?, idFor?_eq]
  cases named : registry.ids.find? (Text.canonicalPath uri) with
  | some id => simp [ledger, binding?, named]
  | none =>
      have unbound : registry.ledger.binding? (Text.canonicalPath uri) = none := by
        simp [ledger, binding?, named]
      by_cases last : registry.nextId = 0xFFFFFFFF
      · simp [unbound, FileId.isBuiltin_mk_iff, last]
      · have ordinary : (⟨registry.nextId⟩ : FileId) ≠ .builtin :=
          fun builtin => last (congrArg FileId.index builtin)
        have numbered := consistent.ledger_number (Text.canonicalPath uri) ordinary
        simpa [unbound, FileId.isBuiltin_mk_iff, last, number] using numbered.symm

private theorem Consistent.ledger_record (consistent : registry.Consistent) {key : String}
    {id : FileId} (named : registry.ids.find? key = some id) (outcome : Outcome) :
    ledger { registry with outcomes := registry.outcomes.insert id outcome } =
      registry.ledger.bind key ⟨id, some outcome⟩ := by
  have bindings : ∀ other,
      (registry.ids.find? other).map
          (fun taken => (⟨taken, (registry.outcomes.insert id outcome).find? taken⟩ : Binding)) =
        if other = key then some ⟨id, some outcome⟩ else registry.binding? other := by
    intro other
    split
    next same => simp [same, named]
    next different =>
        cases held : registry.ids.find? other with
        | none => simp [binding?, held]
        | some taken =>
            have apart := consistent.id_ne different held named
            simp [binding?, held, Table.find?_insert, apart]
  simp only [ledger, Ledger.bind, Ledger.mk.injEq, and_true]
  exact funext bindings

theorem Consistent.ledger_markUnparseable? (consistent : registry.Consistent)
    (uri reason : String) :
    registry.ledger.markUnparseable? uri reason =
      (registry.markUnparseable? uri reason).map ledger := by
  rw [Ledger.markUnparseable?, markUnparseable?_eq, consistent.ledger_idFor? uri]
  cases numbered : registry.idFor? uri with
  | none => rfl
  | some result =>
      obtain ⟨id, next⟩ := result
      obtain ⟨nextConsistent, held⟩ := consistent.idFor? numbered
      have named := (nextConsistent.inverse _ id).mpr held
      simp [nextConsistent.ledger_record named]

theorem Consistent.ledger_remove (consistent : registry.Consistent) (uri : String) :
    (registry.remove uri).ledger = registry.ledger.remove uri := by
  have bindings : ∀ other, (registry.remove uri).binding? other =
      if other = Text.canonicalPath uri then none else registry.binding? other := by
    intro other
    rcases registry.remove_cases uri with ⟨absent, unchanged⟩ | ⟨id, named, removed⟩
    · rw [unchanged]
      split
      next same => simp [binding?, same, absent]
      next => rfl
    · rw [removed]
      simp only [binding?, Table.find?_erase]
      split
      next => rfl
      next different =>
          cases held : registry.ids.find? other with
          | none => rfl
          | some taken =>
              have apart := consistent.id_ne different held named
              simp [apart]
  have sameNext : (registry.remove uri).nextId = registry.nextId := by
    rcases registry.remove_cases uri with ⟨_, unchanged⟩ | ⟨_, _, removed⟩
    · rw [unchanged]
    · rw [removed]
  simp only [ledger, Ledger.remove, sameNext, Ledger.mk.injEq, and_true]
  exact funext bindings

/-- Reading a registry as a ledger commutes with every operation. -/
theorem Consistent.ledger_apply (consistent : registry.Consistent) (operation : Operation) :
    (registry.apply operation).ledger = registry.ledger.apply operation := by
  cases operation with
  | idFor uri =>
      simp only [apply_idFor, Ledger.apply, consistent.ledger_idFor? uri]
      cases registry.idFor? uri with
      | none => rfl
      | some result => rfl
  | insert resource =>
      rw [apply_insert]
      exact consistent.ledger_insert resource
  | markUnparseable uri reason =>
      simp only [apply_markUnparseable, Ledger.apply,
        consistent.ledger_markUnparseable? uri reason]
      cases registry.markUnparseable? uri reason with
      | none => rfl
      | some marked => rfl
  | remove uri => exact consistent.ledger_remove uri

theorem ledger_after (history : List Operation) :
    (after history).ledger = Ledger.after history := by
  induction history using List.reverseRecOn with
  | nil => rfl
  | append_singleton history operation ih =>
      rw [after_concat, (consistent_after history).ledger_apply operation, ih, Ledger.after_concat]

/-! ## Every answer from the ledger -/

structure AgreesWith (registry : Registry) (ledger : Ledger) : Prop where
  idFor? : ∀ uri, (registry.idFor? uri).map Prod.fst = (ledger.idFor? uri).map Prod.fst
  get? : ∀ uri resource,
    registry.get? uri = some resource ↔ ledger.outcome? uri = some (.parsed resource)
  resolved : ∀ uri resource,
    registry.resolve uri = .ok resource ↔ ledger.outcome? uri = some (.parsed resource)
  unparseable : ∀ uri reason, registry.resolve uri = .error (.unparseable uri reason) ↔
    ledger.outcome? uri = some (.failed reason)
  notFound : ∀ uri, registry.resolve uri = .error (.notFound uri) ↔ ledger.outcome? uri = none
  uri? : ∀ id uri,
    registry.uri? id = some uri ↔ ∃ outcome, ledger.binding? uri = some ⟨id, outcome⟩
  size : ∃ uris : List String, uris.Nodup ∧
    (∀ uri, uri ∈ uris ↔ ∃ id outcome, ledger.binding? uri = some ⟨id, some outcome⟩) ∧
    registry.size = uris.length

theorem outcome?_ledger (registry : Registry) (uri : String) :
    registry.ledger.outcome? uri = registry.outcome? uri := by
  cases named : registry.ids.find? (Text.canonicalPath uri) with
  | none => simp [ledger, binding?, Ledger.outcome?, outcome?, named]
  | some id => simp [ledger, binding?, Ledger.outcome?, outcome?, named]

theorem binding?_eq_some_iff {uri : String} {id : FileId} {outcome : Option Outcome} :
    registry.ledger.binding? uri = some ⟨id, outcome⟩ ↔
      registry.ids.find? uri = some id ∧ registry.outcomes.find? id = outcome := by
  simp only [ledger, binding?, Option.map_eq_some_iff, Binding.mk.injEq]
  constructor
  · rintro ⟨_, named, rfl, kept⟩
    exact ⟨named, kept⟩
  · rintro ⟨named, kept⟩
    exact ⟨id, named, rfl, kept⟩

theorem Consistent.wellFormed_ledger (consistent : registry.Consistent) :
    registry.ledger.WellFormed where
  canonical uri binding bound := consistent.canonical (binding?_eq_some_iff.mp bound).1
  distinct uri other left right leftBound rightBound same := by
    have leftNamed := (binding?_eq_some_iff.mp leftBound).1
    have rightNamed := (binding?_eq_some_iff.mp rightBound).1
    exact consistent.uri_unique (same ▸ leftNamed) rightNamed

/-- The size of a registry counts the uris that have an outcome, each of them once. -/
theorem Consistent.size_ledger (consistent : registry.Consistent) :
    ∃ uris : List String, uris.Nodup ∧
      (∀ uri, uri ∈ uris ↔ ∃ id outcome, registry.ledger.binding? uri = some ⟨id, some outcome⟩) ∧
      registry.size = uris.length := by
  refine ⟨registry.outcomes.keys.filterMap registry.uris.find?, ?distinct, ?members, ?count⟩
  case distinct =>
    refine List.Nodup.filterMap ?_ registry.outcomes.distinct
    intro id other uri held otherHeld
    exact consistent.id_unique held otherHeld
  case members =>
    intro uri
    simp only [List.mem_filterMap, Table.mem_keys_iff, binding?_eq_some_iff]
    constructor
    · rintro ⟨id, ⟨outcome, kept⟩, held⟩
      exact ⟨id, outcome, (consistent.inverse uri id).mpr held, kept⟩
    · rintro ⟨id, outcome, named, kept⟩
      exact ⟨id, ⟨outcome, kept⟩, (consistent.inverse uri id).mp named⟩
  case count =>
    have everyOne : ∀ id ∈ registry.outcomes.keys, (registry.uris.find? id).isSome := by
      intro id member
      obtain ⟨outcome, kept⟩ := Table.mem_keys_iff.mp member
      obtain ⟨uri, held⟩ := consistent.bound kept
      simp [held]
    rw [List.filterMap_length_eq_length.mpr everyOne]
    simp [size, Table.size, Table.keys]

theorem Consistent.agreesWith_ledger (consistent : registry.Consistent) :
    registry.AgreesWith registry.ledger where
  idFor? uri := by
    rw [consistent.ledger_idFor? uri, Option.map_map]
    rfl
  get? uri resource := by rw [outcome?_ledger, get?_eq_some_iff]
  resolved uri resource := by rw [outcome?_ledger, resolve_eq_ok_iff, get?_eq_some_iff]
  unparseable uri reason := by
    rw [outcome?_ledger, resolve]
    cases registry.outcome? uri with
    | none => simp
    | some outcome => cases outcome <;> simp
  notFound uri := by
    rw [outcome?_ledger, resolve]
    cases registry.outcome? uri with
    | none => simp
    | some outcome => cases outcome <;> simp
  uri? id uri := by
    simp only [Registry.uri?, binding?_eq_some_iff, ← consistent.inverse uri id]
    constructor
    · intro named
      exact ⟨_, named, rfl⟩
    · rintro ⟨_, named, _⟩
      exact named
  size := consistent.size_ledger

/-- After every history the tables agree with each other, and all answers agree with the ledger of
the same history, which binds canonical uris to distinct ids. -/
theorem after_agreesWith_ledger (history : List Operation) :
    (after history).Consistent ∧ (Ledger.after history).WellFormed ∧
      (after history).AgreesWith (Ledger.after history) := by
  have consistent := consistent_after history
  rw [← ledger_after history]
  exact ⟨consistent, consistent.wellFormed_ledger, consistent.agreesWith_ledger⟩

end Registry

end SchemaScope
