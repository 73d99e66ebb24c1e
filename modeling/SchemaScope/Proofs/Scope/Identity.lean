import SchemaScope.Proofs.Declaration.Numbering
import SchemaScope.Proofs.Scope.Exposure

/-!
An id stands for one declaration in a scope.

A scope takes its declarations from stored resources and from the catalogue. No two of them have the
same id, however often ids were taken over and uris evicted, and within one of them ordinals are
distinct. Files in related packages are collected and other resources are listed, but both ways copy
the same record for the same node.
-/

set_option autoImplicit false

namespace SchemaScope

/-- A record of one of the declarations of a resource. -/
def Resource.Declares (resource : Resource) (declaration : Declaration) : Prop :=
  ∃ place ∈ resource.declarations.places, declaration = resource.recordAt place

/-- An ordinal leads back to one place. -/
theorem Resource.Built.place_unique {resource : Resource} (built : resource.Built)
    {place other : Place Node} (member : place ∈ resource.declarations.places)
    (otherMember : other ∈ resource.declarations.places)
    (same : place.label.ordinal = other.label.ordinal) : place = other := by
  cases built with
  | complete numbered => exact place_unique_of_number? numbered member otherMember same
  | fragments numbered => exact place_unique_of_number? numbered member otherMember same

private theorem Resource.Built.declaration_unique {resource : Resource} (built : resource.Built)
    {left right : Declaration} (leftDeclared : resource.Declares left)
    (rightDeclared : resource.Declares right) (same : left.id = right.id) : left = right := by
  obtain ⟨place, member, rfl⟩ := leftDeclared
  obtain ⟨other, otherMember, rfl⟩ := rightDeclared
  have ordinals : place.label.ordinal = other.label.ordinal := congrArg DeclarationId.ordinal same
  rw [built.place_unique member otherMember ordinals]

theorem Resource.Declares.file_eq {resource : Resource} {declaration : Declaration}
    (declared : resource.Declares declaration) : declaration.id.file = resource.id := by
  obtain ⟨place, _, rfl⟩ := declared
  rfl

theorem Resource.Declares.uri_eq {resource : Resource} {declaration : Declaration}
    (declared : resource.Declares declaration) : declaration.uri = resource.uri := by
  obtain ⟨place, _, rfl⟩ := declared
  rfl

theorem Catalogue.built (path : String) : (Catalogue.resourceAt path).Built := by
  have numbered : number? (descriptors ++ options ++ locations) = some declarations := by
    decide +kernel
  exact .complete numbered

/-! ## Both ways of collecting copy the same records -/

theorem Resource.declares_of_mem_listing {resource : Resource} {filter : Filter}
    {description : Description} (listed : description ∈ resource.listing filter) :
    resource.Declares description.declaration := by
  obtain ⟨place, member, _, rfl⟩ := mem_listing.mp listed
  exact ⟨place, member, rfl⟩

theorem SchemaFile.declares_of_mem_localScope {file : SchemaFile} {filter : Filter}
    {description : Description} (collected : description ∈ (file.localScope filter).entries) :
    file.toResource.Declares description.declaration := by
  obtain ⟨place, member, _, _, record, _⟩ := mem_localScope.mp collected
  exact ⟨place, member, record⟩

namespace Registry

variable {registry : Registry} {settings : Settings} {root : SchemaFile} {filter : Filter}

private theorem declares_of_justified (built : ∀ resource ∈ registry.resources, resource.Built)
    {finding : Finding} (justified : registry.Justifies settings root finding)
    {description : Description} (offered : description ∈ finding.descriptions settings filter) :
    ∃ source, registry.Supplies settings root source ∧
      source.Declares description.declaration := by
  cases finding with
  | catalogue path =>
      rw [Finding.descriptions, Catalogue.listingAt_eq_listing] at offered
      exact ⟨_, .catalogue justified, Resource.declares_of_mem_listing offered⟩
  | unresolved path failure => cases offered
  | repeated path package => cases offered
  | related path file =>
      obtain ⟨resource, package, reached, complete, _⟩ := justified
      obtain rfl := (built resource reached.mem_resources).eq_toResource complete
      exact ⟨_, .reached reached, SchemaFile.declares_of_mem_localScope offered⟩
  | unrelated path resource =>
      obtain ⟨package, reached, _⟩ := justified
      exact ⟨resource, .reached reached, Resource.declares_of_mem_listing offered⟩

/-- Every record in a scope comes from a resource that supplies the file. -/
theorem declares_of_mem_visibleScope (built : ∀ resource ∈ registry.resources, resource.Built)
    {description : Description}
    (visible : description ∈ (registry.visibleScope settings root filter).entries) :
    ∃ source, registry.Supplies settings root source ∧
      source.Declares description.declaration := by
  rcases SymbolIndex.mem_entries_merge.mp visible with own | imported
  · exact ⟨_, .own, SchemaFile.declares_of_mem_localScope own⟩
  · obtain ⟨finding, found, offered⟩ := mem_entries_importedScope.mp imported
    exact declares_of_justified built
      (registry.justifies_of_mem_findings settings root finding found) offered

/-! ## No two suppliers of a scope have the same id -/

private theorem Supplies.stored_or_catalogue {source : Resource}
    (rootStored : root.toResource ∈ registry.resources)
    (supplies : registry.Supplies settings root source) :
    source ∈ registry.resources ∨ source = Catalogue.resourceAt settings.descriptorPath := by
  cases supplies with
  | own => exact .inl rootStored
  | reached reached => exact .inl reached.mem_resources
  | catalogue _ => exact .inr rfl

theorem Supplies.built {source : Resource} (rootStored : root.toResource ∈ registry.resources)
    (built : ∀ resource ∈ registry.resources, resource.Built)
    (supplies : registry.Supplies settings root source) : source.Built := by
  rcases supplies.stored_or_catalogue rootStored with stored | rfl
  · exact built source stored
  · exact Catalogue.built settings.descriptorPath

/-- The id of a record leads back to one supplier. -/
theorem Consistent.supplier_unique (consistent : registry.Consistent)
    (ordinary : ∀ resource ∈ registry.resources, resource.id ≠ .builtin)
    (rootStored : root.toResource ∈ registry.resources) {left right : Resource}
    (leftSupplies : registry.Supplies settings root left)
    (rightSupplies : registry.Supplies settings root right) (same : left.id = right.id) :
    left = right := by
  rcases leftSupplies.stored_or_catalogue rootStored with leftStored | rfl
  · rcases rightSupplies.stored_or_catalogue rootStored with rightStored | rfl
    · exact consistent.eq_of_mem_resources leftStored rightStored same
    · exact absurd same (ordinary left leftStored)
  · rcases rightSupplies.stored_or_catalogue rootStored with rightStored | rfl
    · exact absurd same.symm (ordinary right rightStored)
    · rfl

/-- After every history that inserts built resources under ids of their own, the scope of a stored
file has one declaration for each id, and the file of an id, unless it is the catalogue, is the one
that the registry knows by that id. -/
theorem declaration_unique_in_visibleScope (history : List Operation) (settings : Settings)
    (filter : Filter) (path : String) (resource : Resource) (root : SchemaFile)
    (inserted : ∀ resource, .insert resource ∈ history → resource.Built ∧ resource.id ≠ .builtin)
    (stored : (after history).get? path = some resource) (complete : resource.file? = some root) :
    (∀ left ∈ ((after history).visibleScope settings root filter).entries,
      ∀ right ∈ ((after history).visibleScope settings root filter).entries,
        left.declaration.id = right.declaration.id → left.declaration = right.declaration) ∧
    ∀ description ∈ ((after history).visibleScope settings root filter).entries,
      description.declaration.id.file ≠ .builtin →
        (after history).uri? description.declaration.id.file =
          some (Text.canonicalPath description.declaration.uri) := by
  have consistent := consistent_after history
  have built : ∀ resource ∈ (after history).resources, resource.Built := fun resource held =>
    (inserted resource (insert_mem_of_mem_resources held)).1
  have ordinary : ∀ resource ∈ (after history).resources, resource.id ≠ .builtin :=
    fun resource held => (inserted resource (insert_mem_of_mem_resources held)).2
  have rootStored : root.toResource ∈ (after history).resources := by
    have held := mem_resources_of_get? stored
    exact (built resource held).eq_toResource complete ▸ held
  constructor
  · intro left leftVisible right rightVisible same
    obtain ⟨source, supplies, declares⟩ := declares_of_mem_visibleScope built leftVisible
    obtain ⟨other, otherSupplies, otherDeclares⟩ := declares_of_mem_visibleScope built rightVisible
    have ids : source.id = other.id := by
      rw [← declares.file_eq, same, otherDeclares.file_eq]
    obtain rfl := consistent.supplier_unique ordinary rootStored supplies otherSupplies ids
    exact (supplies.built rootStored built).declaration_unique declares otherDeclares same
  · intro description visible counted
    obtain ⟨source, supplies, declares⟩ := declares_of_mem_visibleScope built visible
    rw [declares.file_eq] at counted ⊢
    rw [declares.uri_eq]
    rcases supplies.stored_or_catalogue rootStored with held | rfl
    · exact consistent.uri?_of_mem_resources held
    · exact absurd rfl counted

/-! A draft that loses its id to another file, and a uri that loses the id which was kept for it. -/

def draftFile : SchemaFile :=
  ⟨⟨0⟩, "draft.proto", .default, [], numberFrom 0 frameOutlines⟩

def reissuedHistory : List Operation :=
  [.insert draftFile.toResource, .insert frameFile.toResource, .idFor "relay.proto",
    .insert brokenResource, .insert relayFile.toResource]

private theorem reissuedHistory_inserted (resource : Resource)
    (inserted : .insert resource ∈ reissuedHistory) :
    resource.Built ∧ resource.id ≠ .builtin := by
  have numbered : number? frameOutlines = some (numberFrom 0 frameOutlines) := by decide
  simp only [reissuedHistory, List.mem_cons, List.not_mem_nil, or_false, Operation.insert.injEq,
    reduceCtorEq, false_or] at inserted
  rcases inserted with rfl | rfl | rfl | rfl
  · exact ⟨.complete numbered, by decide⟩
  · exact ⟨.complete numbered, by decide⟩
  · exact ⟨.fragments numbered, by decide⟩
  · exact ⟨.complete numbered, by decide⟩

def relayFrame : Declaration := ⟨⟨⟨2⟩, 0⟩, .message, "Frame", "relay.proto", .origin⟩

theorem declaration_unique_in_visibleScope_reissued :
    (∀ resource, .insert resource ∈ reissuedHistory → resource.Built ∧ resource.id ≠ .builtin) ∧
      (after reissuedHistory).get? "draft.proto" = none ∧
      (after reissuedHistory).get? "./relay.proto" = some relayFile.toResource ∧
      ⟨⟨["Frame"]⟩, relayFrame⟩ ∈
        ((after reissuedHistory).visibleScope .standard relayFile .all).entries ∧
      ⟨⟨["net", "relay", "Frame"]⟩, relayFrame⟩ ∈
        ((after reissuedHistory).visibleScope .standard relayFile .all).entries ∧
      (∀ left ∈ ((after reissuedHistory).visibleScope .standard relayFile .all).entries,
        ∀ right ∈ ((after reissuedHistory).visibleScope .standard relayFile .all).entries,
          left.declaration.id = right.declaration.id → left.declaration = right.declaration) ∧
      ∀ description ∈ ((after reissuedHistory).visibleScope .standard relayFile .all).entries,
        description.declaration.id.file ≠ .builtin →
          (after reissuedHistory).uri? description.declaration.id.file =
            some (Text.canonicalPath description.declaration.uri) :=
  ⟨reissuedHistory_inserted, by decide, by decide,
    SymbolIndex.mem_entries_merge.mpr (.inl (by decide)),
    SymbolIndex.mem_entries_merge.mpr (.inl (by decide)),
    declaration_unique_in_visibleScope reissuedHistory .standard .all "./relay.proto"
      relayFile.toResource relayFile reissuedHistory_inserted (by decide) rfl⟩

end Registry

end SchemaScope
