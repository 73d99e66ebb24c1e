import SchemaScope.Navigation
import SchemaScope.Proofs.Scope.Identity
import SchemaScope.Proofs.Symbol.Lookup

/-!
Navigation by the names under which resources list their declarations.

A name is looked up in three layers: the local names of the file, what its imports contribute, and
the listing of the file itself. Local names are given only to what is inside of messages and groups.
So the values of an enum and the methods of a service are not in the first layer of their own file,
where an import may come before them. They are not in the second layer of a file that imports them
into a related package either, and such a file cannot name them at all.
-/

set_option autoImplicit false

namespace SchemaScope

/-- The name under which a resource lists a declaration. -/
def Resource.listedName (resource : Resource) (place : Place Node) : QualifiedName :=
  fullName place.label.name place.scopes resource.package

private theorem Resource.mem_listing_listedName {resource : Resource} {place : Place Node}
    (member : place ∈ resource.declarations.places) :
    ⟨resource.listedName place, resource.recordAt place⟩ ∈ resource.listing .all :=
  mem_listing.mpr ⟨place, member, rfl, rfl⟩

private theorem SchemaFile.mem_localScope_of_isNested {file : SchemaFile} {place : Place Node}
    (member : place ∈ file.declarations.places) (nested : place.isNested = true)
    {name : QualifiedName}
    (named : name = file.toResource.listedName place ∨ name = ⟨place.chain⟩) :
    ⟨name, file.toResource.recordAt place⟩ ∈ (file.localScope .all).entries := by
  rw [Resource.listedName, Place.scopes_of_isNested nested, Resource.fullName_around] at named
  exact mem_localScope.mpr ⟨place, member, nested, rfl, rfl, named⟩

private theorem Resource.declarations_of_file? {resource : Resource} {file : SchemaFile}
    (complete : resource.file? = some file) : resource.declarations = file.declarations := by
  rw [declarations, contents_of_file? complete]

namespace Registry

variable {registry : Registry} {settings : Settings} {root : SchemaFile} {path : String}
  {resource target : Resource}

/-! ## The three layers -/

theorem faithful_importedScope (registry : Registry) (settings : Settings) (root : SchemaFile) :
    (registry.importedScope settings root .all).Faithful :=
  SymbolIndex.faithful_ofList _

theorem faithful_visibleScope (registry : Registry) (settings : Settings) (root : SchemaFile) :
    (registry.visibleScope settings root .all).Faithful :=
  (SymbolIndex.faithful_ofList _).extend _

private theorem find?_eq_lookup? (indexed : registry.get? path = some resource)
    (complete : resource.file? = some root) (name : QualifiedName) :
    registry.find? settings path name =
      ((registry.visibleScope settings root .all).extend (resource.listing .all)).lookup? name := by
  simp [find?, indexed, navigationScope, complete]

/-- A name is looked up in one layer after the other. -/
theorem find?_eq_layers (indexed : registry.get? path = some resource)
    (complete : resource.file? = some root) (name : QualifiedName) :
    registry.find? settings path name =
      ((root.localScope .all).lookup? name).or
        (((registry.importedScope settings root .all).lookup? name).or
          (((resource.listing .all).find? (Description.isNamed name)).map
            Description.declaration)) := by
  have localFaithful : (root.localScope .all).Faithful := SymbolIndex.faithful_ofList _
  rw [find?_eq_lookup? indexed complete,
    (registry.faithful_visibleScope settings root).lookup?_extend, visibleScope,
    localFaithful.lookup?_merge (registry.faithful_importedScope settings root), Option.or_assoc]

private theorem mem_layers_of_find? (indexed : registry.get? path = some resource)
    (complete : resource.file? = some root) {name : QualifiedName} {declaration : Declaration}
    (found : registry.find? settings path name = some declaration) :
    ⟨name, declaration⟩ ∈ (root.localScope .all).entries ∨
      ⟨name, declaration⟩ ∈ (registry.importedScope settings root .all).entries ∨
      ⟨name, declaration⟩ ∈ resource.listing .all := by
  rw [find?_eq_lookup? indexed complete] at found
  have held := ((registry.faithful_visibleScope settings root).extend _).mem_of_lookup? found
  rcases SymbolIndex.mem_entries_extend.mp held with visible | listed
  · rcases SymbolIndex.mem_entries_merge.mp visible with own | imported
    · exact .inl own
    · exact .inr (.inl imported)
  · exact .inr (.inr listed)

/-- A name that is imported leads somewhere, although an own name may come before it. -/
theorem find?_of_mem_importedScope (indexed : registry.get? path = some resource)
    (complete : resource.file? = some root) {name : QualifiedName} {declaration : Declaration}
    (member : ⟨name, declaration⟩ ∈ (registry.importedScope settings root .all).entries) :
    ∃ found, registry.find? settings path name = some found := by
  obtain ⟨first, known⟩ := (registry.faithful_importedScope settings root).lookup?_of_mem member
  rw [find?_eq_layers indexed complete, known]
  cases (root.localScope .all).lookup? name with
  | none => exact ⟨first, rfl⟩
  | some own => exact ⟨own, rfl⟩

/-! ## Declarations of imported resources -/

/-- A resource that a file gets as a listing: fragments, or a file that is reached from a package to
which its own package is not related. -/
def ListedFor (registry : Registry) (settings : Settings) (root : SchemaFile)
    (target : Resource) : Prop :=
  target.file? = none ∨
    ∃ package, registry.Reaches settings root target package ∧
      package.related target.package = false

private theorem listedFor_iff {package : Package}
    (reached : registry.Reaches settings root target package) :
    registry.ListedFor settings root target ↔
      registry.Justifies settings root (.unrelated target.uri target) := by
  constructor
  · rintro (fragments | ⟨other, otherReached, unrelated⟩)
    · exact ⟨package, reached, fun file complete => by simp [fragments] at complete⟩
    · exact ⟨other, otherReached, fun file complete =>
        Resource.package_of_file? complete ▸ unrelated⟩
  · rintro ⟨other, otherReached, unrelated⟩
    cases complete : target.file? with
    | none => exact .inl complete
    | some file =>
        exact .inr ⟨other, otherReached,
          (Resource.package_of_file? complete).symm ▸ unrelated file complete⟩

private theorem Consistent.mem_importedScope_of_listedFor (consistent : registry.Consistent)
    {package : Package} (reached : registry.Reaches settings root target package)
    (listed : registry.ListedFor settings root target) {place : Place Node}
    (member : place ∈ target.declarations.places) :
    ⟨target.listedName place, target.recordAt place⟩ ∈
      (registry.importedScope settings root .all).entries :=
  consistent.mem_importedScope_of_justifies ((listedFor_iff reached).mp listed)
    (Resource.mem_listing_listedName member)

private theorem Consistent.mem_importedScope_of_related (consistent : registry.Consistent)
    {package : Package} (reached : registry.Reaches settings root target package)
    {file : SchemaFile} (complete : target.file? = some file)
    (related : package.related file.package = true) {place : Place Node}
    (member : place ∈ target.declarations.places) (nested : place.isNested = true)
    {name : QualifiedName} (named : name = target.listedName place ∨ name = ⟨place.chain⟩) :
    ⟨name, file.toResource.recordAt place⟩ ∈
      (registry.importedScope settings root .all).entries := by
  have justified : registry.Justifies settings root (.related target.uri file) :=
    ⟨target, package, reached, complete, related⟩
  have sameName : target.listedName place = file.toResource.listedName place := by
    rw [Resource.listedName, Resource.package_of_file? complete]
    rfl
  rw [Resource.declarations_of_file? complete] at member
  rw [sameName] at named
  exact consistent.mem_importedScope_of_justifies justified
    (SchemaFile.mem_localScope_of_isNested member nested named)

/-- Whichever package a resource is reached from, what is inside of its messages and groups is known
by its listed name. -/
theorem Consistent.mem_importedScope_of_isNested (consistent : registry.Consistent)
    {package : Package} (reached : registry.Reaches settings root target package)
    {place : Place Node} (member : place ∈ target.declarations.places)
    (nested : place.isNested = true) :
    ∃ declaration, ⟨target.listedName place, declaration⟩ ∈
      (registry.importedScope settings root .all).entries := by
  cases complete : target.file? with
  | none =>
      have listed : registry.ListedFor settings root target := .inl complete
      exact ⟨_, consistent.mem_importedScope_of_listedFor reached listed member⟩
  | some file =>
      cases related : package.related file.package with
      | true =>
          exact ⟨_, consistent.mem_importedScope_of_related reached complete related member nested
            (.inl rfl)⟩
      | false =>
          rw [← Resource.package_of_file? complete] at related
          have listed : registry.ListedFor settings root target := .inr ⟨package, reached, related⟩
          exact ⟨_, consistent.mem_importedScope_of_listedFor reached listed member⟩

/-- Nothing else of a resource is contributed. -/
theorem Consistent.exposed_of_mem_importedScope (consistent : registry.Consistent)
    (built : ∀ resource ∈ registry.resources, resource.Built ∧ resource.id ≠ .builtin)
    (stored : target ∈ registry.resources) {place : Place Node}
    (member : place ∈ target.declarations.places) {name : QualifiedName}
    (imported : ⟨name, target.recordAt place⟩ ∈
      (registry.importedScope settings root .all).entries) :
    place.isNested = true ∨ registry.ListedFor settings root target := by
  obtain ⟨finding, found, offered⟩ := mem_entries_importedScope.mp imported
  have justified := registry.justifies_of_mem_findings settings root finding found
  cases finding with
  | catalogue path =>
      rw [Finding.descriptions, Catalogue.listingAt_eq_listing] at offered
      have ids : target.id = .builtin := (Resource.declares_of_mem_listing offered).file_eq
      exact absurd ids (built target stored).2
  | unresolved path failure => cases offered
  | repeated path package => cases offered
  | related path file =>
      obtain ⟨source, package, reached, complete, _⟩ := justified
      obtain rfl := (built source reached.mem_resources).1.eq_toResource complete
      obtain ⟨other, otherMember, nested, _, same, _⟩ := SchemaFile.mem_localScope.mp offered
      have ids : target.id = file.toResource.id :=
        congrArg (fun declaration => declaration.id.file) same
      obtain rfl := consistent.eq_of_mem_resources stored reached.mem_resources ids
      have ordinals : place.label.ordinal = other.label.ordinal :=
        congrArg (fun declaration => declaration.id.ordinal) same
      obtain rfl := (built _ stored).1.place_unique member otherMember ordinals
      exact .inl nested
  | unrelated path source =>
      obtain ⟨package, reached, unrelated⟩ := justified
      have ids : target.id = source.id := (Resource.declares_of_mem_listing offered).file_eq
      obtain rfl := consistent.eq_of_mem_resources stored reached.mem_resources ids
      exact .inr ((listedFor_iff reached).mpr ⟨package, reached, unrelated⟩)

theorem Consistent.exposed_of_find? (consistent : registry.Consistent)
    (built : ∀ resource ∈ registry.resources, resource.Built ∧ resource.id ≠ .builtin)
    (indexed : registry.get? path = some resource) (complete : resource.file? = some root)
    (stored : target ∈ registry.resources) (foreign : target ≠ resource) {place : Place Node}
    (member : place ∈ target.declarations.places) {name : QualifiedName}
    (found : registry.find? settings path name = some (target.recordAt place)) :
    place.isNested = true ∨ registry.ListedFor settings root target := by
  have held := mem_resources_of_get? indexed
  have ids : target.id ≠ resource.id := fun same =>
    foreign (consistent.eq_of_mem_resources stored held same)
  rcases mem_layers_of_find? indexed complete found with own | imported | listed
  · obtain rfl := (built resource held).1.eq_toResource complete
    exact absurd (SchemaFile.declares_of_mem_localScope own).file_eq ids
  · exact consistent.exposed_of_mem_importedScope built stored member imported
  · exact absurd (Resource.declares_of_mem_listing listed).file_eq ids

/-- After every history, navigation from a file finds each declaration of an imported resource by
its listed name, provided that the declaration is inside of messages and groups only or that the
file gets the resource as a listing. A related package adds a second name for the former. No other
declaration of the resource is found, whatever the name. -/
theorem imported_declaration_found (history : List Operation) (settings : Settings) (path : String)
    (resource : Resource) (root : SchemaFile) (statement : Import) (target : Resource)
    (place : Place Node) (indexed : (after history).get? path = some resource)
    (complete : resource.file? = some root) (imported : statement ∈ root.imports)
    (leads : (after history).LeadsTo settings statement target)
    (member : place ∈ target.declarations.places) :
    (place.isNested = true ∨ (after history).ListedFor settings root target →
      ∃ declaration,
        (after history).find? settings path (target.listedName place) = some declaration) ∧
    (∀ file, target.file? = some file → root.package.related file.package = true →
      place.isNested = true →
      ∃ declaration, (after history).find? settings path ⟨place.chain⟩ = some declaration) ∧
    ((∀ resource, .insert resource ∈ history → resource.Built ∧ resource.id ≠ .builtin) →
      target ≠ resource →
      ∀ name, (after history).find? settings path name = some (target.recordAt place) →
        place.isNested = true ∨ (after history).ListedFor settings root target) := by
  have consistent := consistent_after history
  have reached : (after history).Reaches settings root target root.package := .direct imported leads
  refine ⟨?_, ?_, ?_⟩
  · rintro (nested | listed)
    · obtain ⟨declaration, known⟩ := consistent.mem_importedScope_of_isNested reached member nested
      exact find?_of_mem_importedScope indexed complete known
    · exact find?_of_mem_importedScope indexed complete
        (consistent.mem_importedScope_of_listedFor reached listed member)
  · intro file targetComplete related nested
    exact find?_of_mem_importedScope indexed complete
      (consistent.mem_importedScope_of_related reached targetComplete related member nested
        (.inr rfl))
  · intro inserted foreign name found
    have built : ∀ resource ∈ (after history).resources,
        resource.Built ∧ resource.id ≠ .builtin := fun resource held =>
      inserted resource (insert_mem_of_mem_resources held)
    exact consistent.exposed_of_find? built indexed complete reached.mem_resources foreign member
      found

/-! A fleet with a flag and a pilot service, a dock in the same package that imports it, and a gate
that also gets it through a channel in another package. -/

def flagOutlines : Forest Outline :=
  .tree ⟨.enum, "Flag", .origin⟩ (.leaves [⟨.enumValue, "RED", .origin⟩])

def fleetOutlines : Forest Outline :=
  flagOutlines ++ .tree ⟨.service, "Pilot", .origin⟩ (.leaves [⟨.rpc, "Board", .origin⟩])

def fleetFile : SchemaFile := ⟨⟨0⟩, "fleet.proto", ⟨["port"]⟩, [], numberFrom 0 fleetOutlines⟩

def dockFile : SchemaFile := ⟨⟨1⟩, "dock.proto", ⟨["port"]⟩, [⟨"fleet.proto", .plain⟩], .nil⟩

def channelFile : SchemaFile :=
  ⟨⟨2⟩, "channel.proto", ⟨["sea"]⟩, [⟨"fleet.proto", .publicly⟩], .nil⟩

def gateFile : SchemaFile :=
  ⟨⟨3⟩, "gate.proto", ⟨["port"]⟩, [⟨"fleet.proto", .plain⟩, ⟨"channel.proto", .plain⟩], .nil⟩

def portHistory : List Operation :=
  [.insert fleetFile.toResource, .insert dockFile.toResource, .insert channelFile.toResource,
    .insert gateFile.toResource]

def redPlace : Place Node := ⟨[⟨⟨.enum, "Flag", .origin⟩, 0⟩], ⟨⟨.enumValue, "RED", .origin⟩, 1⟩⟩

theorem imported_declaration_found_gate :
    (after portHistory).get? "gate.proto" = some gateFile.toResource ∧
      redPlace ∈ fleetFile.toResource.declarations.places ∧ redPlace.isNested = false ∧
      (after portHistory).ListedFor .standard gateFile fleetFile.toResource ∧
      ∃ declaration, (after portHistory).find? .standard "gate.proto"
        (fleetFile.toResource.listedName redPlace) = some declaration := by
  have channelReached : (after portHistory).Reaches .standard gateFile channelFile.toResource
      ⟨["port"]⟩ :=
    .direct (.tail _ (.head _)) ⟨by decide, by decide⟩
  have fleetReached : (after portHistory).Reaches .standard gateFile fleetFile.toResource
      ⟨["sea"]⟩ :=
    .onward channelReached rfl rfl (.head _) ⟨by decide, by decide⟩
  have listed : (after portHistory).ListedFor .standard gateFile fleetFile.toResource :=
    .inr ⟨⟨["sea"]⟩, fleetReached, by decide⟩
  have found := imported_declaration_found portHistory .standard "gate.proto" gateFile.toResource
    gateFile ⟨"fleet.proto", .plain⟩ fleetFile.toResource redPlace (by decide) rfl (.head _)
    ⟨by decide, by decide⟩ (by decide)
  exact ⟨by decide, by decide, by decide, listed, found.1 (.inr listed)⟩

private theorem portHistory_built (resource : Resource)
    (inserted : .insert resource ∈ portHistory) :
    resource.Built := by
  have fleetNumbered : number? fleetOutlines = some (numberFrom 0 fleetOutlines) := by decide
  have emptyNumbered : number? .nil = some .nil := by decide
  simp only [portHistory, List.mem_cons, List.not_mem_nil, or_false, Operation.insert.injEq]
    at inserted
  rcases inserted with rfl | rfl | rfl | rfl
  · exact .complete fleetNumbered
  · exact .complete emptyNumbered
  · exact .complete emptyNumbered
  · exact .complete emptyNumbered

/-- The dock, which is in the package of the fleet, finds neither the value of the flag nor the
method of the service, although the fleet lists both. -/
theorem related_members_missing :
    (∀ resource, .insert resource ∈ portHistory → resource.Built) ∧
      (after portHistory).get? "dock.proto" = some dockFile.toResource ∧
      ⟨"fleet.proto", .plain⟩ ∈ dockFile.imports ∧
      (after portHistory).LeadsTo .standard ⟨"fleet.proto", .plain⟩ fleetFile.toResource ∧
      (fleetFile.toResource.listing .all).map Description.name =
        [⟨["port", "Flag"]⟩, ⟨["port", "RED"]⟩, ⟨["port", "Pilot"]⟩, ⟨["port", "Pilot", "Board"]⟩] ∧
      (after portHistory).find? .standard "dock.proto" ⟨["port", "RED"]⟩ = none ∧
      (after portHistory).find? .standard "dock.proto" ⟨["port", "Pilot", "Board"]⟩ = none :=
  ⟨portHistory_built, by decide, by decide, ⟨by decide, by decide⟩, by decide, by decide, by decide⟩

/-! ## Declarations of the file itself -/

private theorem find?_listing_of_mem {name : QualifiedName} {declaration : Declaration}
    (listed : ⟨name, declaration⟩ ∈ resource.listing .all) :
    ∃ first, ((resource.listing .all).find? (Description.isNamed name)).map
        Description.declaration = some first ∧ first.id.file = resource.id := by
  cases found : (resource.listing .all).find? (Description.isNamed name) with
  | none =>
      have rejected := List.find?_eq_none.mp found _ listed
      simp at rejected
  | some description =>
      have held := List.mem_of_find?_eq_some found
      exact ⟨description.declaration, rfl, (Resource.declares_of_mem_listing held).file_eq⟩

/-- After every history that inserts built resources, the name under which a file lists one of its
declarations leads to a declaration of that file, unless it is the name of something that is inside
of an enum, a service or the like, and an import contributes that name too. -/
theorem own_declaration_found (history : List Operation) (settings : Settings) (path : String)
    (resource : Resource) (root : SchemaFile) (place : Place Node)
    (inserted : ∀ resource, .insert resource ∈ history → resource.Built)
    (indexed : (after history).get? path = some resource) (complete : resource.file? = some root)
    (member : place ∈ resource.declarations.places) :
    ∃ declaration,
      (after history).find? settings path (resource.listedName place) = some declaration ∧
        (declaration.id.file = resource.id ∨
          place.isNested = false ∧
            (root.localScope .all).lookup? (resource.listedName place) = none ∧
            ((after history).importedScope settings root .all).lookup?
              (resource.listedName place) = some declaration) := by
  have held := mem_resources_of_get? indexed
  have built := inserted resource (insert_mem_of_mem_resources held)
  obtain rfl := built.eq_toResource complete
  have localFaithful : (root.localScope .all).Faithful := SymbolIndex.faithful_ofList _
  rw [find?_eq_layers indexed complete]
  cases own : (root.localScope .all).lookup? (root.toResource.listedName place) with
  | some declaration =>
      have collected := localFaithful.mem_of_lookup? own
      exact ⟨declaration, rfl, .inl (SchemaFile.declares_of_mem_localScope collected).file_eq⟩
  | none =>
      have inside : place.isNested = false := by
        by_contra nested
        rw [Bool.not_eq_false] at nested
        obtain ⟨first, known⟩ := localFaithful.lookup?_of_mem
          (SchemaFile.mem_localScope_of_isNested member nested (.inl rfl))
        cases own.symm.trans known
      cases imported : ((after history).importedScope settings root .all).lookup?
          (root.toResource.listedName place) with
      | some declaration => exact ⟨declaration, rfl, .inr ⟨inside, rfl, rfl⟩⟩
      | none =>
          obtain ⟨first, found, ids⟩ :=
            find?_listing_of_mem (Resource.mem_listing_listedName member)
          exact ⟨first, found, .inl ids⟩

/-! A quay with a flag, and a berth in the same package with messages that have the names of the
flag and of its value. -/

def berthOutlines : Forest Outline :=
  .leaves [⟨.message, "RED", .origin⟩, ⟨.message, "Flag", .origin⟩]

def berthFile : SchemaFile := ⟨⟨0⟩, "berth.proto", ⟨["port"]⟩, [], numberFrom 0 berthOutlines⟩

def quayFile : SchemaFile :=
  ⟨⟨1⟩, "quay.proto", ⟨["port"]⟩, [⟨"berth.proto", .plain⟩], numberFrom 0 flagOutlines⟩

def quayHistory : List Operation := [.insert berthFile.toResource, .insert quayFile.toResource]

private theorem quayHistory_inserted (resource : Resource)
    (inserted : .insert resource ∈ quayHistory) :
    resource.Built ∧ resource.id ≠ .builtin := by
  have berthNumbered : number? berthOutlines = some (numberFrom 0 berthOutlines) := by decide
  have quayNumbered : number? flagOutlines = some (numberFrom 0 flagOutlines) := by decide
  simp only [quayHistory, List.mem_cons, List.not_mem_nil, or_false, Operation.insert.injEq]
    at inserted
  rcases inserted with rfl | rfl
  · exact ⟨.complete berthNumbered, by decide⟩
  · exact ⟨.complete quayNumbered, by decide⟩

def flagPlace : Place Node := ⟨[], ⟨⟨.enum, "Flag", .origin⟩, 0⟩⟩

theorem own_declaration_found_quay :
    (∀ resource, .insert resource ∈ quayHistory → resource.Built) ∧
      (after quayHistory).get? "./quay.proto" = some quayFile.toResource ∧
      flagPlace ∈ quayFile.toResource.declarations.places ∧ flagPlace.isNested = true ∧
      ⟨⟨["port", "Flag"]⟩, berthFile.toResource.recordAt ⟨[], ⟨⟨.message, "Flag", .origin⟩, 1⟩⟩⟩ ∈
        ((after quayHistory).importedScope .standard quayFile .all).entries ∧
      ∃ declaration, (after quayHistory).find? .standard "./quay.proto"
          (quayFile.toResource.listedName flagPlace) = some declaration ∧
        (declaration.id.file = quayFile.id ∨
          flagPlace.isNested = false ∧
            (quayFile.localScope .all).lookup? (quayFile.toResource.listedName flagPlace) = none ∧
            ((after quayHistory).importedScope .standard quayFile .all).lookup?
              (quayFile.toResource.listedName flagPlace) = some declaration) :=
  ⟨fun resource inserted => (quayHistory_inserted resource inserted).1, by decide, by decide,
    by decide, by decide,
    own_declaration_found quayHistory .standard "./quay.proto" quayFile.toResource quayFile
      flagPlace (fun resource inserted => (quayHistory_inserted resource inserted).1) (by decide)
      rfl (by decide)⟩

/-- From the quay, the name of the value of its flag leads to the message in the berth. -/
theorem own_value_shadowed :
    (∀ resource, .insert resource ∈ quayHistory → resource.Built ∧ resource.id ≠ .builtin) ∧
      (after quayHistory).get? "quay.proto" = some quayFile.toResource ∧
      redPlace ∈ quayFile.toResource.declarations.places ∧
      (after quayHistory).find? .standard "quay.proto" (quayFile.toResource.listedName redPlace) =
        some ⟨⟨berthFile.id, 0⟩, .message, "RED", "berth.proto", .origin⟩ ∧
      berthFile.id ≠ quayFile.id :=
  ⟨quayHistory_inserted, by decide, by decide, by decide, by decide⟩

end Registry

end SchemaScope
