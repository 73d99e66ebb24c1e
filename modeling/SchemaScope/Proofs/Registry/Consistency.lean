import Mathlib.Data.List.Induction
import SchemaScope.Proofs.Registry.Updates

/-!
The tables of a registry agree with each other.

Uris and ids name each other, an outcome is kept only for an id that has a uri, and a parsed
resource stands under its own id and its own uri. Every history leads to a registry of which this
holds. In particular no two parsed resources with the same uri can be resolved.
-/

set_option autoImplicit false

namespace SchemaScope.Registry

/-- The tables of a registry agree. The last field says that an id in use was handed out before,
unless it is that of the catalogue, which only a resource of its own can bring in. -/
structure Consistent (registry : Registry) : Prop where
  inverse : ∀ (uri : String) (id : FileId),
    registry.ids.find? uri = some id ↔ registry.uris.find? id = some uri
  canonical : ∀ {uri : String} {id : FileId},
    registry.ids.find? uri = some id → Text.canonicalPath uri = uri
  bound : ∀ {id : FileId} {outcome : Outcome},
    registry.outcomes.find? id = some outcome → ∃ uri, registry.uris.find? id = some uri
  own : ∀ {id : FileId} {resource : Resource},
    registry.outcomes.find? id = some (.parsed resource) →
      resource.id = id ∧ registry.uris.find? id = some (Text.canonicalPath resource.uri)
  fresh : ∀ {id : FileId} {uri : String},
    registry.uris.find? id = some uri → id = .builtin ∨ id.index < registry.nextId

variable {registry : Registry}

theorem Consistent.id_unique (consistent : registry.Consistent) {uri : String} {id other : FileId}
    (left : registry.uris.find? id = some uri) (right : registry.uris.find? other = some uri) :
    id = other :=
  Option.some.inj (((consistent.inverse uri id).mpr left).symm.trans
    ((consistent.inverse uri other).mpr right))

theorem Consistent.uri_unique (consistent : registry.Consistent) {uri other : String} {id : FileId}
    (left : registry.ids.find? uri = some id) (right : registry.ids.find? other = some id) :
    uri = other :=
  Option.some.inj (((consistent.inverse uri id).mp left).symm.trans
    ((consistent.inverse other id).mp right))

theorem Consistent.id_ne (consistent : registry.Consistent) {uri other : String} {id taken : FileId}
    (different : other ≠ uri) (held : registry.ids.find? other = some taken)
    (named : registry.ids.find? uri = some id) : taken ≠ id := by
  rintro rfl
  exact different (consistent.uri_unique held named)

/-- An id that is given out for the first time brings no old outcome with it. -/
theorem Consistent.outcome_none (consistent : registry.Consistent) {id : FileId}
    (unused : registry.uris.find? id = none) : registry.outcomes.find? id = none := by
  cases found : registry.outcomes.find? id with
  | none => rfl
  | some outcome =>
      obtain ⟨uri, held⟩ := consistent.bound found
      rw [unused] at held
      cases held

/-! ## Reading a registry after an insertion -/

private theorem releaseOther_cases (registry : Registry) (key : String) (id : FileId) :
    (registry.releaseOther key id = registry ∧
        ∀ previous, registry.ids.find? key = some previous → previous = id) ∨
      ∃ previous, registry.ids.find? key = some previous ∧ previous ≠ id ∧
        registry.releaseOther key id = { registry with
          uris := registry.uris.erase previous
          outcomes := registry.outcomes.erase previous } := by
  unfold releaseOther
  cases held : registry.ids.find? key with
  | none => exact .inl ⟨rfl, by simp⟩
  | some previous =>
      by_cases same : previous = id
      · exact .inl ⟨if_pos same, by simp [same]⟩
      · exact .inr ⟨previous, rfl, same, if_neg same⟩

private theorem find?_uris_releaseOther (registry : Registry) (key : String) (id other : FileId) :
    (registry.releaseOther key id).uris.find? other =
      if registry.ids.find? key = some other ∧ other ≠ id then none
      else registry.uris.find? other := by
  rcases registry.releaseOther_cases key id with ⟨kept, only⟩ | ⟨_, held, different, released⟩
  · rw [kept, if_neg fun taken => taken.2 (only other taken.1)]
  · rw [released, held]
    grind [Table.find?_erase]

private theorem find?_outcomes_releaseOther (registry : Registry) (key : String)
    (id other : FileId) :
    (registry.releaseOther key id).outcomes.find? other =
      if registry.ids.find? key = some other ∧ other ≠ id then none
      else registry.outcomes.find? other := by
  rcases registry.releaseOther_cases key id with ⟨kept, only⟩ | ⟨_, held, different, released⟩
  · rw [kept, if_neg fun taken => taken.2 (only other taken.1)]
  · rw [released, held]
    grind [Table.find?_erase]

theorem evicted?_eq_some_iff {resource : Resource} {owner : String} :
    registry.evicted? resource = some owner ↔
      registry.uris.find? resource.id = some owner ∧ owner ≠ Text.canonicalPath resource.uri := by
  simp [evicted?, Option.filter_eq_some_iff]

private theorem find?_ids_evict (registry : Registry) (resource : Resource) (uri : String) :
    (registry.evict resource).ids.find? uri =
      if registry.evicted? resource = some uri then none else registry.ids.find? uri := by
  unfold evict
  split
  next owner lost => simp [lost, Table.find?_erase, eq_comm]
  next kept => simp [kept]

/-- The uri that had the id loses it, whatever the tables were like before. -/
theorem find?_ids_insert (registry : Registry) (resource : Resource) (uri : String) :
    (registry.insert resource).ids.find? uri =
      if uri = Text.canonicalPath resource.uri then some resource.id
      else if registry.uris.find? resource.id = some uri then none
      else registry.ids.find? uri := by
  simp only [insert, Table.find?_insert, find?_ids_evict, ids_releaseOther, evicted?_eq_some_iff,
    find?_uris_releaseOther]
  grind

/-- The id that the uri had before goes out of use. -/
theorem find?_uris_insert (registry : Registry) (resource : Resource) (id : FileId) :
    (registry.insert resource).uris.find? id =
      if id = resource.id then some (Text.canonicalPath resource.uri)
      else if registry.ids.find? (Text.canonicalPath resource.uri) = some id then none
      else registry.uris.find? id := by
  simp only [insert, Table.find?_insert, uris_evict, find?_uris_releaseOther]
  grind

theorem find?_outcomes_insert (registry : Registry) (resource : Resource) (id : FileId) :
    (registry.insert resource).outcomes.find? id =
      if id = resource.id then some (.parsed resource)
      else if registry.ids.find? (Text.canonicalPath resource.uri) = some id then none
      else registry.outcomes.find? id := by
  simp only [insert, Table.find?_insert, outcomes_evict, find?_outcomes_releaseOther]
  grind

private theorem outcomes_insert_cases {resource : Resource} {id : FileId} {outcome : Outcome}
    (found : (registry.insert resource).outcomes.find? id = some outcome) :
    (id = resource.id ∧ outcome = .parsed resource) ∨
      (registry.outcomes.find? id = some outcome ∧
        (registry.insert resource).uris.find? id = registry.uris.find? id) := by
  rw [find?_outcomes_insert] at found
  rw [find?_uris_insert]
  by_cases same : id = resource.id
  · rw [if_pos same] at found
    exact .inl ⟨same, (Option.some.inj found).symm⟩
  · rw [if_neg same] at found ⊢
    by_cases released : registry.ids.find? (Text.canonicalPath resource.uri) = some id
    · rw [if_pos released] at found
      cases found
    · rw [if_neg released] at found ⊢
      exact .inr ⟨found, rfl⟩

/-! ## Every operation keeps the tables in agreement -/

theorem consistent_empty : empty.Consistent where
  inverse := by simp [empty]
  canonical := by simp [empty]
  bound := by simp [empty]
  own := by simp [empty]
  fresh := by simp [empty]

theorem toNat_succ {number : UInt32} (below : number ≠ 0xFFFFFFFF) :
    (number + 1).toNat = number.toNat + 1 := by
  have smaller : number.toNat ≠ 4294967295 := fun same => below (UInt32.toNat_inj.mp same)
  have bounded := number.toNat_lt
  rw [UInt32.toNat_add]
  exact Nat.mod_eq_of_lt (by simp; omega)

theorem index_ne_of_ne_builtin {id : FileId} (ordinary : id ≠ .builtin) :
    id.index ≠ 0xFFFFFFFF := by
  intro same
  cases id
  exact ordinary (congrArg FileId.mk same)

theorem lt_nextIdAfter (nextId : UInt32) {id : FileId} (ordinary : id ≠ .builtin) :
    id.index < nextIdAfter nextId id := by
  have advanced := toNat_succ (index_ne_of_ne_builtin ordinary)
  simp only [nextIdAfter, FileId.isBuiltin, ordinary, decide_false, Bool.not_false, Bool.true_and,
    decide_eq_true_eq]
  split
  next => exact UInt32.lt_iff_toNat_lt.mpr (by omega)
  next later => exact UInt32.not_le.mp later

theorem le_nextIdAfter (nextId : UInt32) (id : FileId) : nextId ≤ nextIdAfter nextId id := by
  by_cases ordinary : id = .builtin
  · simp [nextIdAfter, FileId.isBuiltin, ordinary]
  · have advanced := toNat_succ (index_ne_of_ne_builtin ordinary)
    simp only [nextIdAfter, FileId.isBuiltin, ordinary, decide_false, Bool.not_false, Bool.true_and,
      decide_eq_true_eq]
    split
    next earlier =>
        have before := UInt32.le_iff_toNat_le.mp earlier
        exact UInt32.le_iff_toNat_le.mpr (by omega)
    next => exact UInt32.le_refl nextId

/-- An insertion may take its id from another uri and its uri from another id, both at once. -/
theorem Consistent.insert (consistent : registry.Consistent) (resource : Resource) :
    (registry.insert resource).Consistent where
  inverse := by
    intro uri id
    have paired := consistent.inverse uri id
    have released := consistent.inverse (Text.canonicalPath resource.uri) id
    have evicted := consistent.inverse uri resource.id
    rw [find?_ids_insert, find?_uris_insert]
    grind
  canonical := by
    intro uri id found
    rw [find?_ids_insert] at found
    split at found
    next same => rw [same, Text.canonicalPath_idem]
    next =>
        split at found
        next => cases found
        next => exact consistent.canonical found
  bound := by
    intro id outcome found
    rcases outcomes_insert_cases found with ⟨same, _⟩ | ⟨kept, sameUri⟩
    · exact ⟨_, by rw [find?_uris_insert, if_pos same]⟩
    · rw [sameUri]
      exact consistent.bound kept
  own := by
    intro id stored found
    rcases outcomes_insert_cases found with ⟨same, latest⟩ | ⟨kept, sameUri⟩
    · cases latest
      exact ⟨same.symm, by rw [find?_uris_insert, if_pos same]⟩
    · rw [sameUri]
      exact consistent.own kept
  fresh := by
    intro id uri found
    rw [find?_uris_insert] at found
    by_cases same : id = resource.id
    · subst same
      by_cases ordinary : resource.id = .builtin
      · exact .inl ordinary
      · exact .inr (lt_nextIdAfter registry.nextId ordinary)
    · by_cases released : registry.ids.find? (Text.canonicalPath resource.uri) = some id
      · simp [same, released] at found
      · simp only [same, released, if_false] at found
        rcases consistent.fresh found with builtin | earlier
        · exact .inl builtin
        · exact .inr (UInt32.lt_of_lt_of_le earlier (le_nextIdAfter registry.nextId resource.id))

/-- A request is answered from the table, or by the next id, which is then in both tables. -/
theorem idFor?_cases {uri : String} {id : FileId} {next : Registry}
    (numbered : registry.idFor? uri = some (id, next)) :
    (registry.ids.find? (Text.canonicalPath uri) = some id ∧ next = registry) ∨
      (registry.ids.find? (Text.canonicalPath uri) = none ∧ id = ⟨registry.nextId⟩ ∧
        id ≠ .builtin ∧
        next = { registry with
          ids := registry.ids.insert (Text.canonicalPath uri) id
          uris := registry.uris.insert id (Text.canonicalPath uri)
          nextId := registry.nextId + 1 }) := by
  rw [idFor?_eq] at numbered
  cases held : registry.ids.find? (Text.canonicalPath uri) with
  | some known =>
      simp only [held, Option.some.injEq, Prod.mk.injEq] at numbered
      obtain ⟨rfl, rfl⟩ := numbered
      exact .inl ⟨rfl, rfl⟩
  | none =>
      by_cases last : registry.nextId = 0xFFFFFFFF
      · simp [held, last] at numbered
      · simp only [held, last, if_false, Option.some.injEq, Prod.mk.injEq] at numbered
        obtain ⟨rfl, rfl⟩ := numbered
        exact .inr ⟨rfl, rfl, fun builtin => last (congrArg FileId.index builtin), rfl⟩

/-- Nobody uses the next id yet, unless it is that of the catalogue. -/
theorem Consistent.uris_nextId (consistent : registry.Consistent)
    (ordinary : (⟨registry.nextId⟩ : FileId) ≠ .builtin) :
    registry.uris.find? ⟨registry.nextId⟩ = none := by
  cases held : registry.uris.find? ⟨registry.nextId⟩ with
  | none => rfl
  | some owner =>
      rcases consistent.fresh held with builtin | earlier
      · exact absurd builtin ordinary
      · exact absurd earlier (UInt32.lt_irrefl _)

theorem Consistent.idFor? (consistent : registry.Consistent) {uri : String} {id : FileId}
    {next : Registry} (numbered : registry.idFor? uri = some (id, next)) :
    next.Consistent ∧ next.uris.find? id = some (Text.canonicalPath uri) := by
  rcases idFor?_cases numbered with ⟨known, rfl⟩ | ⟨unknown, latest, ordinary, rfl⟩
  · exact ⟨consistent, (consistent.inverse _ id).mp known⟩
  · have unused := consistent.uris_nextId (latest ▸ ordinary)
    rw [← latest] at unused
    have advanced := toNat_succ (index_ne_of_ne_builtin ordinary)
    refine ⟨⟨?inverse, ?canonical, ?bound, ?own, ?fresh⟩, Table.find?_insert_self _ _ _⟩
    case inverse =>
      intro other taken
      have paired := consistent.inverse other taken
      simp only [Table.find?_insert]
      grind
    case canonical =>
      intro other taken found
      rw [Table.find?_insert] at found
      split at found
      next same => rw [same, Text.canonicalPath_idem]
      next => exact consistent.canonical found
    case bound =>
      intro taken outcome found
      obtain ⟨owner, held⟩ := consistent.bound found
      have different : taken ≠ id := fun same => by simp [same, unused] at held
      exact ⟨owner, by rw [Table.find?_insert, if_neg different, held]⟩
    case own =>
      intro taken resource found
      obtain ⟨named, held⟩ := consistent.own found
      have different : taken ≠ id := fun same => by simp [same, unused] at held
      exact ⟨named, by rw [Table.find?_insert, if_neg different, held]⟩
    case fresh =>
      intro taken owner found
      rw [latest] at advanced
      rw [Table.find?_insert] at found
      split at found
      next same =>
          rw [same, latest]
          exact .inr (UInt32.lt_iff_toNat_lt.mpr (by simp only [advanced]; omega))
      next =>
          rcases consistent.fresh found with builtin | earlier
          · exact .inl builtin
          · have before := UInt32.lt_iff_toNat_lt.mp earlier
            exact .inr (UInt32.lt_iff_toNat_lt.mpr (by simp only [advanced]; omega))

theorem markUnparseable?_cases {uri reason : String} {marked : Registry}
    (succeeded : registry.markUnparseable? uri reason = some marked) :
    ∃ id next, registry.idFor? uri = some (id, next) ∧
      marked = { next with outcomes := next.outcomes.insert id (.failed reason) } := by
  rw [markUnparseable?_eq] at succeeded
  obtain ⟨⟨id, next⟩, numbered, same⟩ := Option.map_eq_some_iff.mp succeeded
  exact ⟨id, next, numbered, same.symm⟩

theorem Consistent.markUnparseable? (consistent : registry.Consistent) {uri reason : String}
    {marked : Registry} (succeeded : registry.markUnparseable? uri reason = some marked) :
    marked.Consistent := by
  obtain ⟨id, next, numbered, rfl⟩ := markUnparseable?_cases succeeded
  obtain ⟨nextConsistent, held⟩ := consistent.idFor? numbered
  refine ⟨nextConsistent.inverse, nextConsistent.canonical, ?bound, ?own, nextConsistent.fresh⟩
  case bound =>
    intro taken outcome found
    rw [Table.find?_insert] at found
    split at found
    next same => exact ⟨_, same ▸ held⟩
    next => exact nextConsistent.bound found
  case own =>
    intro taken resource found
    rw [Table.find?_insert] at found
    split at found
    next => cases found
    next => exact nextConsistent.own found

theorem remove_cases (registry : Registry) (uri : String) :
    (registry.ids.find? (Text.canonicalPath uri) = none ∧ registry.remove uri = registry) ∨
      ∃ id, registry.ids.find? (Text.canonicalPath uri) = some id ∧
        registry.remove uri = { registry with
          ids := registry.ids.erase (Text.canonicalPath uri)
          uris := registry.uris.erase id
          outcomes := registry.outcomes.erase id } := by
  cases held : registry.ids.find? (Text.canonicalPath uri) with
  | none => exact .inl ⟨rfl, by simp only [remove, held]⟩
  | some id => exact .inr ⟨id, rfl, by simp only [remove, held]⟩

theorem Consistent.remove (consistent : registry.Consistent) (uri : String) :
    (registry.remove uri).Consistent := by
  rcases registry.remove_cases uri with ⟨_, unchanged⟩ | ⟨id, held, removed⟩
  · rw [unchanged]
    exact consistent
  · rw [removed]
    refine ⟨?inverse, ?canonical, ?bound, ?own, ?fresh⟩
    case inverse =>
      intro other taken
      have paired := consistent.inverse other taken
      have removedUri := consistent.inverse (Text.canonicalPath uri) taken
      have removedId := consistent.inverse other id
      simp only [Table.find?_erase]
      grind
    case canonical =>
      intro other taken found
      rw [Table.find?_erase] at found
      split at found
      next => cases found
      next => exact consistent.canonical found
    case bound =>
      intro taken outcome found
      simp only [Table.find?_erase] at found ⊢
      split at found
      next => cases found
      next different => simpa only [different, if_false] using consistent.bound found
    case own =>
      intro taken resource found
      simp only [Table.find?_erase] at found ⊢
      split at found
      next => cases found
      next different => simpa only [different, if_false] using consistent.own found
    case fresh =>
      intro taken owner found
      rw [Table.find?_erase] at found
      split at found
      next => cases found
      next => exact consistent.fresh found

/-- No operation brings the tables out of agreement, whether it fails or not. -/
theorem Consistent.apply (consistent : registry.Consistent) (operation : Operation) :
    (registry.apply operation).Consistent := by
  cases operation with
  | idFor uri =>
      cases numbered : registry.idFor? uri with
      | none => simpa [numbered] using consistent
      | some result => simpa [numbered] using (consistent.idFor? numbered).1
  | insert resource =>
      rw [apply_insert]
      exact consistent.insert resource
  | markUnparseable uri reason =>
      cases succeeded : registry.markUnparseable? uri reason with
      | none => simpa [succeeded] using consistent
      | some marked => simpa [succeeded] using consistent.markUnparseable? succeeded
  | remove uri => exact consistent.remove uri

/-- The tables agree after every history. -/
theorem consistent_after (history : List Operation) : (after history).Consistent := by
  induction history using List.reverseRecOn with
  | nil => exact consistent_empty
  | append_singleton history operation ih =>
      rw [after_concat]
      exact ih.apply operation

/-! ## What an import path leads to -/

theorem outcome?_eq_some_iff {uri : String} {outcome : Outcome} :
    registry.outcome? uri = some outcome ↔
      ∃ id, registry.ids.find? (Text.canonicalPath uri) = some id ∧
        registry.outcomes.find? id = some outcome := by
  simp [outcome?, Option.bind_eq_some_iff]

theorem get?_eq_some_iff {uri : String} {resource : Resource} :
    registry.get? uri = some resource ↔ registry.outcome? uri = some (.parsed resource) := by
  unfold get?
  cases registry.outcome? uri with
  | none => simp
  | some outcome => cases outcome <;> simp

theorem mem_resources_of_resolve {path : String} {resource : Resource}
    (resolved : registry.resolve path = .ok resource) : resource ∈ registry.resources := by
  obtain ⟨id, _, found⟩ :=
    outcome?_eq_some_iff.mp (get?_eq_some_iff.mp (resolve_eq_ok_iff.mp resolved))
  exact List.mem_filterMap.mpr ⟨.parsed resource, Table.mem_values_of_find? found, rfl⟩

theorem mem_resources_of_get? {path : String} {resource : Resource}
    (indexed : registry.get? path = some resource) : resource ∈ registry.resources :=
  mem_resources_of_resolve (resolve_eq_ok_iff.mpr indexed)

/-- A path leads only to a resource with the same canonical path. -/
theorem Consistent.canonicalPath_of_resolve (consistent : registry.Consistent) {path : String}
    {resource : Resource} (resolved : registry.resolve path = .ok resource) :
    Text.canonicalPath resource.uri = Text.canonicalPath path := by
  obtain ⟨id, named, found⟩ :=
    outcome?_eq_some_iff.mp (get?_eq_some_iff.mp (resolve_eq_ok_iff.mp resolved))
  have stored := (consistent.own found).2
  exact Option.some.inj (stored.symm.trans ((consistent.inverse _ id).mp named))

/-- Two paths that lead to resources with one uri lead to the same resource. -/
theorem Consistent.resolve_unique (consistent : registry.Consistent) {path other : String}
    {left right : Resource} (leftResolved : registry.resolve path = .ok left)
    (rightResolved : registry.resolve other = .ok right) (same : left.uri = right.uri) :
    left = right := by
  have paths : Text.canonicalPath path = Text.canonicalPath other := by
    rw [← consistent.canonicalPath_of_resolve leftResolved, same,
      consistent.canonicalPath_of_resolve rightResolved]
  have outcomes : registry.outcome? path = registry.outcome? other := by
    simp only [outcome?, paths]
  have leftOutcome := get?_eq_some_iff.mp (resolve_eq_ok_iff.mp leftResolved)
  have rightOutcome := get?_eq_some_iff.mp (resolve_eq_ok_iff.mp rightResolved)
  rw [outcomes, rightOutcome] at leftOutcome
  cases leftOutcome
  rfl

/-! ## Where a stored resource comes from -/

private theorem outcomes_of_idFor? {uri : String} {id : FileId} {next : Registry}
    (numbered : registry.idFor? uri = some (id, next)) : next.outcomes = registry.outcomes := by
  rcases idFor?_cases numbered with ⟨_, rfl⟩ | ⟨_, _, _, rfl⟩
  · rfl
  · rfl

private theorem parsed_of_apply {operation : Operation} {id : FileId} {resource : Resource}
    (found : (registry.apply operation).outcomes.find? id = some (.parsed resource)) :
    operation = .insert resource ∨ registry.outcomes.find? id = some (.parsed resource) := by
  cases operation with
  | idFor uri =>
      cases numbered : registry.idFor? uri with
      | none => exact .inr (by simpa [numbered] using found)
      | some result =>
          exact .inr (by simpa [numbered, outcomes_of_idFor? numbered] using found)
  | insert other =>
      rw [apply_insert] at found
      rcases outcomes_insert_cases found with ⟨_, latest⟩ | ⟨kept, _⟩
      · cases latest
        exact .inl rfl
      · exact .inr kept
  | markUnparseable uri reason =>
      cases succeeded : registry.markUnparseable? uri reason with
      | none => exact .inr (by simpa [succeeded] using found)
      | some marked =>
          obtain ⟨marker, next, numbered, rfl⟩ := markUnparseable?_cases succeeded
          rw [apply_markUnparseable, succeeded, Option.getD_some, Table.find?_insert] at found
          split at found
          next => cases found
          next => exact .inr (outcomes_of_idFor? numbered ▸ found)
  | remove uri =>
      rcases registry.remove_cases uri with ⟨_, unchanged⟩ | ⟨removed, _, erased⟩
      · rw [apply_remove, unchanged] at found
        exact .inr found
      · rw [apply_remove, erased, Table.find?_erase] at found
        split at found
        next => cases found
        next => exact .inr found

private theorem insert_mem_of_parsed {history : List Operation} {id : FileId} {resource : Resource}
    (found : (after history).outcomes.find? id = some (.parsed resource)) :
    .insert resource ∈ history := by
  induction history using List.reverseRecOn with
  | nil => cases found
  | append_singleton history operation ih =>
      rw [after_concat] at found
      rcases parsed_of_apply found with rfl | earlier
      · simp
      · exact List.mem_append_left _ (ih earlier)

theorem mem_resources_iff {resource : Resource} :
    resource ∈ registry.resources ↔ ∃ id, registry.outcomes.find? id = some (.parsed resource) := by
  simp only [resources, List.mem_filterMap, Table.values, List.mem_map]
  constructor
  · rintro ⟨outcome, ⟨⟨id, stored⟩, member, rfl⟩, parsed⟩
    cases stored with
    | parsed other =>
        cases parsed
        exact ⟨id, Table.find?_eq_some_iff.mpr member⟩
    | failed reason => cases parsed
  · rintro ⟨id, found⟩
    exact ⟨.parsed resource, ⟨(id, _), Table.find?_eq_some_iff.mp found, rfl⟩, rfl⟩

/-- Whatever is stored after a history was inserted in the course of it. -/
theorem insert_mem_of_mem_resources {history : List Operation} {resource : Resource}
    (stored : resource ∈ (after history).resources) : .insert resource ∈ history := by
  obtain ⟨id, found⟩ := mem_resources_iff.mp stored
  exact insert_mem_of_parsed found

theorem Consistent.uri?_of_mem_resources (consistent : registry.Consistent) {resource : Resource}
    (stored : resource ∈ registry.resources) :
    registry.uri? resource.id = some (Text.canonicalPath resource.uri) := by
  obtain ⟨id, found⟩ := mem_resources_iff.mp stored
  obtain ⟨rfl, held⟩ := consistent.own found
  exact held

/-- No two stored resources have the same id. -/
theorem Consistent.eq_of_mem_resources (consistent : registry.Consistent) {left right : Resource}
    (leftStored : left ∈ registry.resources) (rightStored : right ∈ registry.resources)
    (same : left.id = right.id) : left = right := by
  obtain ⟨leftId, leftFound⟩ := mem_resources_iff.mp leftStored
  obtain ⟨rightId, rightFound⟩ := mem_resources_iff.mp rightStored
  have ids : leftId = rightId := by
    rw [← (consistent.own leftFound).1, same, (consistent.own rightFound).1]
  rw [ids, rightFound] at leftFound
  cases leftFound
  rfl

end SchemaScope.Registry
