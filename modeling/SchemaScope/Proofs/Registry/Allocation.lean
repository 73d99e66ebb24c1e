import SchemaScope.Proofs.Registry.Consistency

/-!
How ids are handed out over a whole history.

An id is new when it is above every id that came up before, whether it was handed out or brought in
by a resource. The next id is kept above all of these, so nothing that is removed or evicted is ever
handed out again. The one way to fail is to ask for a new id when only that of the catalogue is
left, and such a request leaves no trace.
-/

set_option autoImplicit false

namespace SchemaScope.Registry

variable {registry : Registry}

def id? (registry : Registry) (uri : String) : Option FileId :=
  registry.ids.find? (Text.canonicalPath uri)

/-- The uri for which an operation needs an id. -/
def Operation.request? : Operation → Option String
  | .idFor uri => some uri
  | .markUnparseable uri _ => some uri
  | .insert _ => none
  | .remove _ => none

/-- The id that comes up in an operation: the answer to a request, or the id of a resource. -/
def mentions? (registry : Registry) : Operation → Option FileId
  | .idFor uri => (registry.idFor? uri).map Prod.fst
  | .insert resource => some resource.id
  | .markUnparseable uri _ => (registry.idFor? uri).map Prod.fst
  | .remove _ => none

/-- The ids that come up when operations are carried out one after the other. -/
def mentionedFrom (registry : Registry) : List Operation → List FileId
  | [] => []
  | operation :: rest =>
      (registry.mentions? operation).toList ++ (registry.apply operation).mentionedFrom rest

def mentioned (history : List Operation) : List FileId := empty.mentionedFrom history

/-- An operation that takes its id from a uri: the uri is removed or gets another id, or another uri
gets the id. -/
def Operation.Unbinds (uri : String) (id : FileId) : Operation → Prop
  | .idFor _ => False
  | .insert resource =>
      if Text.canonicalPath uri = Text.canonicalPath resource.uri then resource.id ≠ id
      else resource.id = id
  | .markUnparseable _ _ => False
  | .remove other => Text.canonicalPath uri = Text.canonicalPath other

/-! ## Failure -/

/-- Only a uri without an id can be refused one, and only when no id but that of the catalogue is
left. -/
theorem idFor?_eq_none_iff {uri : String} :
    registry.idFor? uri = none ↔ registry.id? uri = none ∧ registry.nextId = 0xFFFFFFFF := by
  rw [idFor?_eq, id?]
  cases registry.ids.find? (Text.canonicalPath uri) with
  | some id => simp
  | none => simp

/-- Marking a uri fails exactly where asking for its id would. -/
theorem attempt?_eq_none_iff {operation : Operation} {uri : String}
    (requested : operation.request? = some uri) :
    registry.attempt? operation = none ↔
      registry.id? uri = none ∧ registry.nextId = 0xFFFFFFFF := by
  cases operation with
  | idFor other =>
      cases requested
      rw [attempt?_idFor, Option.map_eq_none_iff, idFor?_eq_none_iff]
  | insert resource => cases requested
  | markUnparseable other reason =>
      cases requested
      rw [attempt?_markUnparseable, markUnparseable?_eq, Option.map_eq_none_iff,
        idFor?_eq_none_iff]
  | remove other => cases requested

/-! ## Requests -/

private theorem id?_of_idFor? {uri : String} {id : FileId} {next : Registry}
    (numbered : registry.idFor? uri = some (id, next)) : next.id? uri = some id := by
  unfold id?
  rcases idFor?_cases numbered with ⟨known, rfl⟩ | ⟨_, _, _, rfl⟩
  · exact known
  · exact Table.find?_insert_self _ _ _

private theorem id?_of_idFor?_other {uri other : String} {id answer : FileId} {next : Registry}
    (held : registry.id? uri = some id) (numbered : registry.idFor? other = some (answer, next)) :
    next.id? uri = some id := by
  rcases idFor?_cases numbered with ⟨_, rfl⟩ | ⟨unknown, _, _, rfl⟩
  · exact held
  · have different : Text.canonicalPath uri ≠ Text.canonicalPath other := by
      intro same
      rw [id?, same, unknown] at held
      cases held
    simpa only [id?, Table.find?_insert, different, if_false] using held

/-- A request that succeeds is answered by the id that its uri then has. -/
private theorem mentions?_of_attempt? {operation : Operation} {uri : String} {next : Registry}
    (requested : operation.request? = some uri)
    (succeeded : registry.attempt? operation = some next) :
    ∃ id numbered, registry.idFor? uri = some (id, numbered) ∧
      registry.mentions? operation = some id ∧ next.id? uri = some id := by
  cases operation with
  | idFor other =>
      cases requested
      rw [attempt?_idFor] at succeeded
      obtain ⟨⟨id, numbered⟩, answered, rfl⟩ := Option.map_eq_some_iff.mp succeeded
      exact ⟨id, numbered, answered, by simp [mentions?, answered], id?_of_idFor? answered⟩
  | insert resource => cases requested
  | markUnparseable other reason =>
      cases requested
      obtain ⟨id, numbered, answered, rfl⟩ := markUnparseable?_cases succeeded
      have held : numbered.id? uri = some id := id?_of_idFor? answered
      exact ⟨id, numbered, answered, by simp [mentions?, answered], held⟩
  | remove other => cases requested

private theorem idFor?_of_id? {uri : String} {id : FileId} (held : registry.id? uri = some id) :
    registry.idFor? uri = some (id, registry) := by
  unfold id? at held
  rw [idFor?_eq, held]

private theorem mentions?_of_id? {operation : Operation} {uri : String} {id : FileId}
    (requested : operation.request? = some uri) (held : registry.id? uri = some id) :
    registry.mentions? operation = some id := by
  cases operation with
  | idFor other =>
      cases requested
      simp [mentions?, idFor?_of_id? held]
  | insert resource => cases requested
  | markUnparseable other reason =>
      cases requested
      simp [mentions?, idFor?_of_id? held]
  | remove other => cases requested

/-! ## The next id is above all that came up -/

/-- The id of the catalogue is not counted; every other id is below the next one. -/
def Precedes (id : FileId) (nextId : UInt32) : Prop := id = .builtin ∨ id.index < nextId

theorem Precedes.mono {id : FileId} {nextId later : UInt32} (precedes : Precedes id nextId)
    (grows : nextId ≤ later) : Precedes id later := by
  rcases precedes with builtin | earlier
  · exact .inl builtin
  · exact .inr (UInt32.lt_of_lt_of_le earlier grows)

private theorem lt_succ_of_ne {number : UInt32} (below : number ≠ 0xFFFFFFFF) :
    number < number + 1 := by
  have advanced := toNat_succ below
  exact UInt32.lt_iff_toNat_lt.mpr (by omega)

private theorem nextId_of_idFor? {uri : String} {id : FileId} {next : Registry}
    (numbered : registry.idFor? uri = some (id, next)) : registry.nextId ≤ next.nextId := by
  rcases idFor?_cases numbered with ⟨_, rfl⟩ | ⟨_, latest, ordinary, rfl⟩
  · exact UInt32.le_refl _
  · have below : registry.nextId ≠ 0xFFFFFFFF := by
      have := index_ne_of_ne_builtin ordinary
      rwa [latest] at this
    exact UInt32.le_of_lt (lt_succ_of_ne below)

private theorem Consistent.precedes_of_idFor? (consistent : registry.Consistent) {uri : String}
    {id : FileId} {next : Registry} (numbered : registry.idFor? uri = some (id, next)) :
    Precedes id next.nextId := by
  obtain ⟨nextConsistent, held⟩ := consistent.idFor? numbered
  exact nextConsistent.fresh held

/-- The next id never goes back, not even when the resource with the last id is removed. -/
theorem nextId_le_apply (registry : Registry) (operation : Operation) :
    registry.nextId ≤ (registry.apply operation).nextId := by
  cases operation with
  | idFor uri =>
      cases numbered : registry.idFor? uri with
      | none => simp [numbered]
      | some result => simpa [numbered] using nextId_of_idFor? numbered
  | insert resource =>
      rw [apply_insert]
      exact le_nextIdAfter registry.nextId resource.id
  | markUnparseable uri reason =>
      cases succeeded : registry.markUnparseable? uri reason with
      | none => simp [succeeded]
      | some marked =>
          obtain ⟨id, next, numbered, rfl⟩ := markUnparseable?_cases succeeded
          simpa [succeeded] using nextId_of_idFor? numbered
  | remove uri =>
      rcases registry.remove_cases uri with ⟨_, unchanged⟩ | ⟨_, _, removed⟩
      · simp [unchanged]
      · simp [removed]

/-- Whatever id comes up in an operation is behind the next id once the operation is done. -/
theorem Consistent.precedes_of_mentions? (consistent : registry.Consistent) {operation : Operation}
    {id : FileId} (mentioned : registry.mentions? operation = some id) :
    Precedes id (registry.apply operation).nextId := by
  cases operation with
  | idFor uri =>
      obtain ⟨⟨answer, next⟩, numbered, rfl⟩ := Option.map_eq_some_iff.mp mentioned
      simpa [numbered] using consistent.precedes_of_idFor? numbered
  | insert resource =>
      cases mentioned
      rw [apply_insert]
      by_cases builtin : resource.id = .builtin
      · exact .inl builtin
      · exact .inr (lt_nextIdAfter registry.nextId builtin)
  | markUnparseable uri reason =>
      obtain ⟨⟨answer, next⟩, numbered, rfl⟩ := Option.map_eq_some_iff.mp mentioned
      simpa [markUnparseable?_eq, numbered] using
        consistent.precedes_of_idFor? numbered
  | remove uri => cases mentioned

theorem nextId_le_foldl (registry : Registry) (history : List Operation) :
    registry.nextId ≤ (history.foldl Registry.apply registry).nextId := by
  induction history generalizing registry with
  | nil => exact UInt32.le_refl _
  | cons operation rest restIH =>
      exact UInt32.le_trans (registry.nextId_le_apply operation) (restIH _)

private theorem Consistent.precedes_of_mem_mentionedFrom (consistent : registry.Consistent)
    {history : List Operation} {id : FileId} (member : id ∈ registry.mentionedFrom history) :
    Precedes id (history.foldl Registry.apply registry).nextId := by
  induction history generalizing registry with
  | nil => cases member
  | cons operation rest restIH =>
      rcases List.mem_append.mp member with first | later
      · have mentioned : registry.mentions? operation = some id := Option.mem_toList.mp first
        exact (consistent.precedes_of_mentions? mentioned).mono (nextId_le_foldl _ rest)
      · exact restIH (consistent.apply operation) later

/-- The next id is above every id that has come up in a history. -/
theorem precedes_of_mem_mentioned {history : List Operation} {id : FileId}
    (member : id ∈ mentioned history) : Precedes id (after history).nextId :=
  consistent_empty.precedes_of_mem_mentionedFrom member

/-! ## How long a uri keeps its id -/

/-- An insertion binds a uri to an id and unbinds whoever else had that id. -/
theorem Consistent.id?_insert (consistent : registry.Consistent) (resource : Resource)
    (uri : String) :
    (registry.insert resource).id? uri =
      if Text.canonicalPath uri = Text.canonicalPath resource.uri then some resource.id
      else if registry.id? uri = some resource.id then none
      else registry.id? uri := by
  have owner := consistent.inverse (Text.canonicalPath uri) resource.id
  simp only [id?, find?_ids_insert, owner]

theorem id?_remove (registry : Registry) (uri other : String) :
    (registry.remove other).id? uri =
      if Text.canonicalPath uri = Text.canonicalPath other then none else registry.id? uri := by
  unfold id?
  rcases registry.remove_cases other with ⟨absent, unchanged⟩ | ⟨_, _, removed⟩
  · rw [unchanged]
    split
    next same => rw [same, absent]
    next => rfl
  · rw [removed, Table.find?_erase]

/-- A uri keeps its id through an operation exactly if the operation does not take it away. -/
theorem Consistent.id?_apply_iff (consistent : registry.Consistent) {uri : String} {id : FileId}
    (held : registry.id? uri = some id) (operation : Operation) :
    (registry.apply operation).id? uri = some id ↔ ¬ operation.Unbinds uri id := by
  cases operation with
  | idFor other =>
      simp only [Operation.Unbinds, not_false_eq_true, iff_true]
      cases numbered : registry.idFor? other with
      | none => simpa [numbered] using held
      | some result => simpa [numbered] using id?_of_idFor?_other held numbered
  | insert resource =>
      simp only [apply_insert, consistent.id?_insert, Operation.Unbinds, held]
      by_cases same : Text.canonicalPath uri = Text.canonicalPath resource.uri
      · simp [same]
      · by_cases taken : resource.id = id
        · simp [same, taken]
        · simp [same, taken, Ne.symm taken]
  | markUnparseable other reason =>
      simp only [Operation.Unbinds, not_false_eq_true, iff_true]
      cases succeeded : registry.markUnparseable? other reason with
      | none => simpa [succeeded] using held
      | some marked =>
          obtain ⟨answer, next, numbered, rfl⟩ := markUnparseable?_cases succeeded
          simpa [succeeded, id?] using id?_of_idFor?_other held numbered
  | remove other =>
      simp only [apply_remove, id?_remove, Operation.Unbinds, held]
      by_cases same : Text.canonicalPath uri = Text.canonicalPath other
      · simp [same]
      · simp [same]

/-- A uri keeps its id through any number of operations that do not take it away. -/
theorem Consistent.id?_foldl (consistent : registry.Consistent) {uri : String} {id : FileId}
    (held : registry.id? uri = some id) {later : List Operation}
    (kept : ∀ operation ∈ later, ¬ operation.Unbinds uri id) :
    (later.foldl Registry.apply registry).id? uri = some id := by
  induction later generalizing registry with
  | nil => exact held
  | cons operation rest restIH =>
      have next := (consistent.id?_apply_iff held operation).mpr (kept operation List.mem_cons_self)
      exact restIH (consistent.apply operation) next fun other member =>
        kept other (List.mem_cons_of_mem _ member)

/-! ## Whole histories -/

private theorem after_append (history later : List Operation) :
    after (history ++ later) = later.foldl Registry.apply (after history) :=
  List.foldl_append

/-- How ids are handed out once a history has been carried out. -/
structure Allocates (history : List Operation) : Prop where
  inserts : ∀ resource,
    (after history).attempt? (.insert resource) = some ((after history).insert resource)
  removes : ∀ uri, (after history).attempt? (.remove uri) = some ((after history).remove uri)
  fails : ∀ operation uri, operation.request? = some uri →
    ((after history).attempt? operation = none ↔
      (after history).id? uri = none ∧ (after history).nextId = 0xFFFFFFFF)
  /-- At the point where an operation fails, it has not changed anything yet. -/
  intact : ∀ operation failure left,
    (perform operation).run (after history) = .error failure left → left = after history
  /-- An operation that fails might as well not have been tried, whatever follows. -/
  harmless : ∀ operation, (after history).attempt? operation = none → ∀ later,
    after (history ++ operation :: later) = after (history ++ later)
  fresh : ∀ operation uri next, operation.request? = some uri → (after history).id? uri = none →
    (after history).attempt? operation = some next →
    ∃ id, (after history).mentions? operation = some id ∧ next.id? uri = some id ∧
      id ≠ .builtin ∧ ∀ earlier ∈ mentioned history, earlier ≠ .builtin → earlier.index < id.index
  known : ∀ operation uri id, operation.request? = some uri → (after history).id? uri = some id →
    (after history).mentions? operation = some id
  lasts : ∀ uri id later, (after history).id? uri = some id →
    (∀ operation ∈ later, ¬ operation.Unbinds uri id) →
    (after (history ++ later)).id? uri = some id
  ends : ∀ uri id operation, (after history).id? uri = some id → operation.Unbinds uri id →
    ((after history).apply operation).id? uri ≠ some id

/-- Whatever the history, a new id is above all that came up in it and never that of the catalogue,
a request fails only when no such id is left, and a uri keeps its id until the id is taken away. -/
theorem allocates_after (history : List Operation) : Allocates history := by
  have consistent := consistent_after history
  constructor
  case inserts =>
    intro resource
    exact (after history).attempt?_insert resource
  case removes =>
    intro uri
    exact (after history).attempt?_remove uri
  case fails =>
    intro operation uri requested
    exact attempt?_eq_none_iff requested
  case intact =>
    intro operation failure left failed
    exact left_of_run_perform failed
  case harmless =>
    intro operation failed later
    have unchanged : (after history).apply operation = after history := by
      rw [apply_eq_attempt?, failed, Option.getD_none]
    rw [after_append, after_append, List.foldl_cons, unchanged]
  case fresh =>
    intro operation uri next requested unknown succeeded
    obtain ⟨id, numbered, answered, mentions, held⟩ := mentions?_of_attempt? requested succeeded
    refine ⟨id, mentions, held, ?_⟩
    rcases idFor?_cases answered with ⟨known, _⟩ | ⟨_, latest, ordinary, _⟩
    · cases unknown.symm.trans known
    · refine ⟨ordinary, fun earlier member counted => ?_⟩
      rcases precedes_of_mem_mentioned member with builtin | below
      · exact absurd builtin counted
      · rw [latest]
        exact below
  case known =>
    intro operation uri id requested held
    exact mentions?_of_id? requested held
  case lasts =>
    intro uri id later held kept
    rw [after_append]
    exact consistent.id?_foldl held kept
  case ends =>
    intro uri id operation held unbinds still
    exact (consistent.id?_apply_iff held operation).mp still unbinds

def lastResource : Resource := ⟨⟨0xFFFFFFFE⟩, "last.proto", .fragments .nil⟩

/-- The last id there is stays spent when its uri is removed. -/
example : (after [.insert lastResource, .remove "last.proto"]).mentions? (.idFor "last.proto") =
    none := by decide

end SchemaScope.Registry
