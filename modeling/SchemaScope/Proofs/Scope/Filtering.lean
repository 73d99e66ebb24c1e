import SchemaScope.Proofs.Declaration.Placement
import SchemaScope.Scope.Walk

/-!
A filter commutes with the building of scopes.

A scope under a filter is the scope of all declarations without those that the filter rejects, and
the rest stays in order. Rejected messages are still entered, and an index that leaves rejected
descriptions out passes over the same repetitions of the others.
-/

set_option autoImplicit false

namespace SchemaScope

def Filter.admits (filter : Filter) (description : Description) : Bool :=
  filter.accepts description.declaration.kind

@[simp] private theorem Filter.accepts_all (kind : Kind) : Filter.all.accepts kind = true := rfl

@[simp] private theorem Filter.admits_record (filter : Filter) (name : QualifiedName) (node : Node)
    (id : FileId) (uri : String) :
    filter.admits ⟨name, node.record id uri⟩ = filter.accepts node.kind := rfl

/-! ## Collections of declarations -/

theorem Resource.filter_listing (resource : Resource) (filter : Filter) :
    (resource.listing .all).filter filter.admits = resource.listing filter := by
  have described : filter.admits ∘ resource.describe [] =
      fun place => filter.accepts place.label.kind := rfl
  rw [listing_eq_map, listing_eq_map, List.filter_map, described, List.filter_filter]
  simp only [Filter.accepts_all, Bool.and_true]

private theorem SchemaFile.filter_offersAt (file : SchemaFile) (filter : Filter) (level : Nat)
    (scopes : List String) (place : Place Node) :
    (file.offersAt .all level scopes place).filter filter.admits =
      file.offersAt filter level scopes place := by
  unfold offersAt
  cases nested : place.isNested with
  | false => simp
  | true =>
      cases accepted : filter.accepts place.label.kind with
      | false => simp [accepted]
      | true => simp [accepted]

private theorem SchemaFile.filter_localOffers (file : SchemaFile) (filter : Filter) (level : Nat)
    (scopes : List String) (forest : Forest Node) :
    (file.localOffers .all level scopes forest).filter filter.admits =
      file.localOffers filter level scopes forest := by
  rw [localOffers_eq_flatMap, localOffers_eq_flatMap, List.filter_flatMap]
  simp only [filter_offersAt]

theorem Catalogue.listing_resourceAt (filter : Filter) (path other : String) :
    ((resourceAt path).listing filter).map (relocate other) =
      (resourceAt other).listing filter := by
  have moved : relocate other ∘ (resourceAt path).describe [] =
      (resourceAt other).describe [] := rfl
  rw [Resource.listing_eq_map, Resource.listing_eq_map, List.map_map, moved]
  rfl

/-- The list that is kept for one path, filtered and moved, is a listing at the other path. -/
theorem Catalogue.listingAt_eq_listing (filter : Filter) (path : String) :
    listingAt filter path = (resourceAt path).listing filter := by
  have whole : listing filter = (resourceAt standardDescriptorPath).listing filter :=
    resource.filter_listing filter
  unfold listingAt
  split
  next standard => rw [standard, whole]
  next => rw [whole, listing_resourceAt]

private theorem Catalogue.filter_listingAt (filter : Filter) (path : String) :
    (listingAt .all path).filter filter.admits = listingAt filter path := by
  rw [listingAt_eq_listing, listingAt_eq_listing, Resource.filter_listing]

/-! ## Indexes -/

namespace SymbolIndex

private theorem entries_insert_filter {index kept : SymbolIndex} {keep : Description → Bool}
    (same : kept.entries = index.entries.filter keep) (description : Description) :
    (index.insert description).entries.filter keep =
      if keep description then (kept.insert description).entries else kept.entries := by
  rw [entries_insert, entries_insert, same]
  cases admitted : keep description with
  | false => split <;> simp [List.filter_append, admitted]
  | true =>
      by_cases held : description ∈ index.entries
      · simp [held, admitted]
      · simp [held, admitted, List.filter_append]

/-- Leaving descriptions out before they are offered is the same as leaving them out afterwards. -/
theorem entries_extend_filter {index kept : SymbolIndex} {keep : Description → Bool}
    (same : kept.entries = index.entries.filter keep) (descriptions : List Description) :
    (kept.extend (descriptions.filter keep)).entries =
      (index.extend descriptions).entries.filter keep := by
  induction descriptions generalizing index kept with
  | nil => exact same
  | cons description rest restIH =>
      have step := entries_insert_filter same description
      cases admitted : keep description with
      | false =>
          rw [admitted, if_neg Bool.false_ne_true] at step
          rw [List.filter_cons_of_neg (by simp [admitted])]
          exact restIH step.symm
      | true =>
          rw [admitted, if_pos rfl] at step
          rw [List.filter_cons_of_pos admitted]
          exact restIH step.symm

private theorem entries_ofList_filter (keep : Description → Bool)
    (descriptions : List Description) :
    (ofList (descriptions.filter keep)).entries = (ofList descriptions).entries.filter keep :=
  entries_extend_filter rfl descriptions

private theorem entries_merge_filter {index kept other otherKept : SymbolIndex}
    {keep : Description → Bool} (same : kept.entries = index.entries.filter keep)
    (otherSame : otherKept.entries = other.entries.filter keep) :
    (kept.merge otherKept).entries = (index.merge other).entries.filter keep := by
  unfold merge
  rw [otherSame]
  exact entries_extend_filter same other.entries

end SymbolIndex

/-! ## Scopes -/

theorem SchemaFile.entries_localNames (file : SchemaFile) (filter : Filter) (level : Nat) :
    (file.localNames filter level).entries =
      (file.localNames .all level).entries.filter filter.admits := by
  unfold localNames
  rw [← SymbolIndex.entries_ofList_filter, filter_localOffers]

/-- Rejected messages are entered like others, so the level overflows for every filter or for
none. -/
theorem SchemaFile.entries_localScopeAt? (file : SchemaFile) (filter : Filter) (level : UInt64) :
    (file.localScopeAt? filter level).map SymbolIndex.entries =
      (file.localScopeAt? .all level).map fun scope => scope.entries.filter filter.admits := by
  rw [localScopeAt?_eq, localScopeAt?_eq]
  split
  next => simp [file.entries_localNames filter level.toNat]
  next => rfl

private theorem Finding.filter_descriptions (settings : Settings) (filter : Filter)
    (finding : Finding) :
    (finding.descriptions settings .all).filter filter.admits =
      finding.descriptions settings filter := by
  cases finding with
  | catalogue path => exact Catalogue.filter_listingAt filter settings.descriptorPath
  | unresolved path failure => rfl
  | repeated path package => rfl
  | related path file => exact (file.entries_localNames filter 0).symm
  | unrelated path resource => exact resource.filter_listing filter

namespace Registry

theorem entries_importedScope (registry : Registry) (settings : Settings) (root : SchemaFile)
    (filter : Filter) :
    (registry.importedScope settings root filter).entries =
      (registry.importedScope settings root .all).entries.filter filter.admits := by
  unfold importedScope
  rw [← SymbolIndex.entries_ofList_filter, List.filter_flatMap]
  simp only [Finding.filter_descriptions]

/-- Whatever is built under a filter, be it a whole scope, its imported part, the local names at a
level or a listing, is what is built for all declarations, filtered afterwards. A level overflows
for no filter or for all of them. -/
theorem filter_commutes_with_scopes (registry : Registry) (settings : Settings) (root : SchemaFile)
    (filter : Filter) :
    (registry.visibleScope settings root filter).entries =
        (registry.visibleScope settings root .all).entries.filter filter.admits ∧
      (registry.importedScope settings root filter).entries =
        (registry.importedScope settings root .all).entries.filter filter.admits ∧
      (∀ level, (root.localScopeAt? filter level).map SymbolIndex.entries =
        (root.localScopeAt? .all level).map fun scope => scope.entries.filter filter.admits) ∧
      ∀ resource : Resource, resource.listing filter =
        (resource.listing .all).filter filter.admits := by
  have imported := registry.entries_importedScope settings root filter
  refine ⟨?_, imported, root.entries_localScopeAt? filter, ?_⟩
  · exact SymbolIndex.entries_merge_filter (root.entries_localNames filter 0) imported
  · intro resource
    exact (resource.filter_listing filter).symm

end Registry

end SchemaScope
