import SchemaScope.Proofs.Scope.Closure
import SchemaScope.Proofs.Scope.Filtering

/-!
Which types a file can see, and under which names.

Types are messages, groups and enums. A file sees its own types, those of the resources that it
reaches, and those of the catalogue if it reaches that. Whether a reached resource is collected like
the file itself or listed depends on the packages; either way each of its types is there under its
full name, and the only other name that a type can have is the full one without the whole package.
-/

set_option autoImplicit false

namespace SchemaScope

/-- Resources as they are built from outlines: a schema file under its own id and uri, or
declarations alone. In both the declarations are numbered in pre-order. -/
inductive Resource.Built : Resource → Prop where
  | complete {file : SchemaFile} {outlines : Forest Outline} :
      number? outlines = some file.declarations → Built file.toResource
  | fragments {id : FileId} {uri : String} {outlines : Forest Outline}
      {declarations : Forest Node} :
      number? outlines = some declarations → Built ⟨id, uri, .fragments declarations⟩

/-- Every message, group and enum is inside of messages and groups only. -/
def TypesNested (forest : Forest Node) : Prop :=
  ∀ place ∈ forest.places,
    (place.label.kind = .message ∨ place.label.kind = .group ∨ place.label.kind = .enum) →
      place.WithinMessages

instance (forest : Forest Node) : Decidable (TypesNested forest) :=
  inferInstanceAs (Decidable (∀ place ∈ forest.places,
    (place.label.kind = .message ∨ place.label.kind = .group ∨ place.label.kind = .enum) →
      place.WithinMessages))

namespace Resource

/-- The messages, groups and enums of a resource. -/
def typePlaces (resource : Resource) : List (Place Node) :=
  resource.declarations.places.filter fun place =>
    place.label.kind = .message ∨ place.label.kind = .group ∨ place.label.kind = .enum

private theorem typePlaces_eq_filter (resource : Resource) :
    resource.typePlaces =
      resource.declarations.places.filter fun place => Filter.types.accepts place.label.kind := by
  simp only [typePlaces, ← Kind.isType_iff, Bool.decide_eq_true]
  rfl

private theorem isNested_of_mem_typePlaces (resource : Resource)
    (nested : TypesNested resource.declarations) {place : Place Node}
    (member : place ∈ resource.typePlaces) : place.isNested = true := by
  obtain ⟨held, isType⟩ := List.mem_filter.mp member
  exact Place.isNested_iff.mpr (nested place held (of_decide_eq_true isType))

def recordAt (resource : Resource) (place : Place Node) : Declaration :=
  place.label.record resource.id resource.uri

/-- The package of a resource, the names around a declaration, and its own name. -/
def fullNameAt (resource : Resource) (place : Place Node) : QualifiedName :=
  ⟨resource.package.segments ++ place.chain⟩

/-- A description of a declaration: its record, under its full name or under that name without the
whole package. -/
def Names (resource : Resource) (place : Place Node) (description : Description) : Prop :=
  description.declaration = resource.recordAt place ∧
    (description.name = resource.fullNameAt place ∨ description.name = ⟨place.chain⟩)

private theorem names_full (resource : Resource) (place : Place Node) :
    resource.Names place ⟨resource.fullNameAt place, resource.recordAt place⟩ :=
  ⟨rfl, .inl rfl⟩

theorem Built.eq_toResource {resource : Resource} (built : resource.Built) {file : SchemaFile}
    (complete : resource.file? = some file) : resource = file.toResource := by
  cases built with
  | complete _ =>
      cases complete
      rfl
  | fragments _ => cases complete

theorem fullName_around (resource : Resource) (place : Place Node) :
    fullName place.label.name (place.around.map fun outer => outer.name) resource.package =
      resource.fullNameAt place := by
  simp [fullName, fullNameAt, Place.chain]

private theorem describe_of_isNested (resource : Resource) {place : Place Node}
    (nested : place.isNested = true) :
    resource.describe [] place = ⟨resource.fullNameAt place, resource.recordAt place⟩ := by
  rw [describe, List.nil_append, Place.scopes_of_isNested nested, fullName_around]
  rfl

/-- A listing has each type under its full name and under no other. -/
theorem mem_listing_types {resource : Resource} (nested : TypesNested resource.declarations)
    {description : Description} :
    description ∈ resource.listing .types ↔
      ∃ place ∈ resource.typePlaces,
        description = ⟨resource.fullNameAt place, resource.recordAt place⟩ := by
  have described : ∀ place ∈ resource.typePlaces, resource.describe [] place =
      ⟨resource.fullNameAt place, resource.recordAt place⟩ := by
    intro place member
    exact resource.describe_of_isNested (resource.isNested_of_mem_typePlaces nested member)
  rw [listing_eq_map, ← typePlaces_eq_filter, List.mem_map]
  constructor
  · intro listed
    obtain ⟨place, member, same⟩ := listed
    exact ⟨place, member, same.symm.trans (described place member)⟩
  · intro exposed
    obtain ⟨place, member, same⟩ := exposed
    exact ⟨place, member, (described place member).trans same.symm⟩

end Resource

namespace SchemaFile

/-- The level of a place is the number of names around it, so two forms of its name are left. -/
private theorem mem_offersAt (file : SchemaFile) {filter : Filter} {place : Place Node}
    {description : Description} :
    description ∈ file.offersAt filter 0 [] place ↔
      place.isNested = true ∧ filter.accepts place.label.kind = true ∧
        file.toResource.Names place description := by
  obtain ⟨name, declaration⟩ := description
  have forms := @mem_offeredForms place.label.name (place.around.map fun outer => outer.name)
    file.package name
  rw [List.length_map, show file.package = file.toResource.package from rfl,
    Resource.fullName_around] at forms
  rw [offersAt, Nat.zero_add, List.nil_append]
  cases nested : place.isNested with
  | false => simp
  | true =>
      cases accepted : filter.accepts place.label.kind with
      | false => simp
      | true =>
          simp only [Bool.and_self, if_true, List.mem_map, true_and]
          constructor
          · intro offered
            obtain ⟨form, held, same⟩ := offered
            cases same
            exact ⟨rfl, (forms.mp held).symm⟩
          · intro names
            obtain ⟨rfl, named⟩ := names
            exact ⟨name, forms.mpr named.symm, rfl⟩

/-- The local scope of a file names what is inside of messages and groups only. -/
theorem mem_localScope {file : SchemaFile} {filter : Filter} {description : Description} :
    description ∈ (file.localScope filter).entries ↔
      ∃ place ∈ file.declarations.places, place.isNested = true ∧
        filter.accepts place.label.kind = true ∧ file.toResource.Names place description := by
  simp only [localScope, localNames, SymbolIndex.mem_entries_ofList, localOffers_eq_flatMap,
    List.mem_flatMap, mem_offersAt]

theorem mem_localScope_types {file : SchemaFile} (nested : TypesNested file.declarations)
    {description : Description} :
    description ∈ (file.localScope .types).entries ↔
      ∃ place ∈ file.toResource.typePlaces, file.toResource.Names place description := by
  rw [mem_localScope]
  constructor
  · intro collected
    obtain ⟨place, member, _, isType, names⟩ := collected
    rw [Resource.typePlaces_eq_filter]
    exact ⟨place, List.mem_filter.mpr ⟨member, isType⟩, names⟩
  · intro exposed
    obtain ⟨place, held, names⟩ := exposed
    have inside : place.isNested = true := file.toResource.isNested_of_mem_typePlaces nested held
    rw [Resource.typePlaces_eq_filter] at held
    obtain ⟨member, isType⟩ := List.mem_filter.mp held
    exact ⟨place, member, inside, isType, names⟩

end SchemaFile

private theorem Catalogue.typesNested (path : String) :
    TypesNested (Catalogue.resourceAt path).declarations := by
  have nested : TypesNested Catalogue.declarations := by decide +kernel
  exact nested

theorem Catalogue.mem_listingAt_types {path : String} {description : Description} :
    description ∈ Catalogue.listingAt .types path ↔
      ∃ place ∈ (Catalogue.resourceAt path).typePlaces,
        description = ⟨(Catalogue.resourceAt path).fullNameAt place,
          (Catalogue.resourceAt path).recordAt place⟩ := by
  rw [Catalogue.listingAt_eq_listing]
  exact Resource.mem_listing_types (Catalogue.typesNested path)

namespace Registry

variable {registry : Registry} {settings : Settings} {root : SchemaFile} {package : Package}

/-- The resources whose types a file sees: the file itself, the resources that it reaches, and the
catalogue at the configured path if the descriptor is imported on the way. -/
inductive Supplies (registry : Registry) (settings : Settings) (root : SchemaFile) :
    Resource → Prop where
  | own : Supplies registry settings root root.toResource
  | reached {resource : Resource} {package : Package} :
      registry.Reaches settings root resource package → Supplies registry settings root resource
  | catalogue : registry.ReachesCatalogue settings root →
      Supplies registry settings root (Catalogue.resourceAt settings.descriptorPath)

/-- The scope of a file holds exactly the types of the resources that supply it. Each of them is
there under its full name, and under no name but this one and the one without the package. -/
structure ExposesTypes (registry : Registry) (settings : Settings) (root : SchemaFile) : Prop where
  records : ∀ declaration,
    (∃ name, ⟨name, declaration⟩ ∈ (registry.visibleScope settings root .types).entries) ↔
      ∃ resource, registry.Supplies settings root resource ∧
        ∃ place ∈ resource.typePlaces, declaration = resource.recordAt place
  full : ∀ resource, registry.Supplies settings root resource →
    ∀ place ∈ resource.typePlaces, ⟨resource.fullNameAt place, resource.recordAt place⟩ ∈
      (registry.visibleScope settings root .types).entries
  named : ∀ description ∈ (registry.visibleScope settings root .types).entries,
    ∃ resource, registry.Supplies settings root resource ∧
      ∃ place ∈ resource.typePlaces, resource.Names place description

structure WellBuilt (registry : Registry) : Prop where
  built : ∀ resource ∈ registry.resources, resource.Built
  nested : ∀ resource ∈ registry.resources, TypesNested resource.declarations

theorem Reaches.mem_resources {resource : Resource}
    (reached : registry.Reaches settings root resource package) :
    resource ∈ registry.resources := by
  obtain ⟨path, resolved⟩ := reached.resolved
  exact mem_resources_of_resolve resolved

/-! ## What a reached resource contributes -/

/-- A related file gives its own id and uri to the records of its local scope, which are those of
the resource. -/
private theorem WellBuilt.mem_recorded (wellBuilt : registry.WellBuilt) {resource : Resource}
    (reached : registry.Reaches settings root resource package) {place : Place Node}
    (member : place ∈ resource.typePlaces) (path : String) :
    ⟨resource.fullNameAt place, resource.recordAt place⟩ ∈
      (Walk.recorded package path resource).descriptions settings .types := by
  have nested := wellBuilt.nested resource reached.mem_resources
  have listed : ⟨resource.fullNameAt place, resource.recordAt place⟩ ∈ resource.listing .types :=
    (Resource.mem_listing_types nested).mpr ⟨place, member, rfl⟩
  rw [mem_descriptions_recorded]
  cases complete : resource.file? with
  | none => exact .inr ⟨by simp, listed⟩
  | some file =>
      cases related : package.related file.package with
      | false => exact .inr ⟨by simp [related], listed⟩
      | true =>
          obtain rfl := (wellBuilt.built resource reached.mem_resources).eq_toResource complete
          exact .inl ⟨file, rfl, related, (SchemaFile.mem_localScope_types nested).mpr
            ⟨place, member, file.toResource.names_full place⟩⟩

private theorem WellBuilt.names_of_justified (wellBuilt : registry.WellBuilt) {finding : Finding}
    (justified : registry.Justifies settings root finding) {description : Description}
    (offered : description ∈ finding.descriptions settings .types) :
    ∃ resource, registry.Supplies settings root resource ∧
      ∃ place ∈ resource.typePlaces, resource.Names place description := by
  cases finding with
  | catalogue path =>
      obtain ⟨place, member, rfl⟩ := Catalogue.mem_listingAt_types.mp offered
      exact ⟨_, .catalogue justified, place, member, Resource.names_full _ place⟩
  | unresolved path failure => cases offered
  | repeated path package => cases offered
  | related path file =>
      obtain ⟨resource, package, reached, complete, _⟩ := justified
      obtain rfl := (wellBuilt.built resource reached.mem_resources).eq_toResource complete
      have nested := wellBuilt.nested _ reached.mem_resources
      obtain ⟨place, member, names⟩ := (SchemaFile.mem_localScope_types nested).mp offered
      exact ⟨_, .reached reached, place, member, names⟩
  | unrelated path resource =>
      obtain ⟨package, reached, _⟩ := justified
      have nested := wellBuilt.nested resource reached.mem_resources
      obtain ⟨place, member, rfl⟩ := (Resource.mem_listing_types nested).mp offered
      exact ⟨resource, .reached reached, place, member, resource.names_full place⟩

/-! ## The scope of types -/

private theorem Consistent.mem_visibleScope_of_supplies (consistent : registry.Consistent)
    (wellBuilt : registry.WellBuilt) (rootNested : TypesNested root.declarations)
    {resource : Resource} (supplies : registry.Supplies settings root resource)
    {place : Place Node} (member : place ∈ resource.typePlaces) :
    ⟨resource.fullNameAt place, resource.recordAt place⟩ ∈
      (registry.visibleScope settings root .types).entries := by
  rw [visibleScope, SymbolIndex.mem_entries_merge]
  cases supplies with
  | own =>
      exact .inl ((SchemaFile.mem_localScope_types rootNested).mpr
        ⟨place, member, root.toResource.names_full place⟩)
  | reached reached =>
      have justified := justifies_recorded reached resource.uri
      exact .inr (consistent.mem_importedScope_of_justifies justified
        (wellBuilt.mem_recorded reached member resource.uri))
  | catalogue reached =>
      have justified : registry.Justifies settings root (.catalogue settings.descriptorPath) :=
        reached
      exact .inr (consistent.mem_importedScope_of_justifies justified
        (Catalogue.mem_listingAt_types.mpr ⟨place, member, rfl⟩))

private theorem Consistent.names_of_mem_visibleScope (consistent : registry.Consistent)
    (wellBuilt : registry.WellBuilt) (rootNested : TypesNested root.declarations)
    {description : Description}
    (visible : description ∈ (registry.visibleScope settings root .types).entries) :
    ∃ resource, registry.Supplies settings root resource ∧
      ∃ place ∈ resource.typePlaces, resource.Names place description := by
  rw [visibleScope, SymbolIndex.mem_entries_merge] at visible
  rcases visible with own | imported
  · obtain ⟨place, member, names⟩ := (SchemaFile.mem_localScope_types rootNested).mp own
    exact ⟨_, .own, place, member, names⟩
  · obtain ⟨finding, justified, offered⟩ := consistent.mem_importedScope_iff_justified.mp imported
    exact wellBuilt.names_of_justified justified offered

/-- After every history that leaves well-built resources, a file whose types are nested likewise
sees exactly the types that it reaches, under the right names. -/
theorem exposesTypes_after (history : List Operation) (settings : Settings) (root : SchemaFile)
    (wellBuilt : (after history).WellBuilt) (rootNested : TypesNested root.declarations) :
    (after history).ExposesTypes settings root := by
  have consistent := consistent_after history
  constructor
  case records =>
    intro declaration
    constructor
    · intro visible
      obtain ⟨name, held⟩ := visible
      obtain ⟨resource, supplies, place, member, record, _⟩ :=
        consistent.names_of_mem_visibleScope wellBuilt rootNested held
      exact ⟨resource, supplies, place, member, record⟩
    · intro supplied
      obtain ⟨resource, supplies, place, member, rfl⟩ := supplied
      exact ⟨_, consistent.mem_visibleScope_of_supplies wellBuilt rootNested supplies member⟩
  case full =>
    intro resource supplies place member
    exact consistent.mem_visibleScope_of_supplies wellBuilt rootNested supplies member
  case named =>
    intro description visible
    exact consistent.names_of_mem_visibleScope wellBuilt rootNested visible

/-! A file in an unrelated package that passes on fragments and the descriptor. -/

def frameOutlines : Forest Outline :=
  .tree ⟨.message, "Frame", .origin⟩
    (.tree ⟨.group, "Part", .origin⟩ (.tree ⟨.enum, "Flag", .origin⟩
      (.leaves [⟨.enumValue, "URGENT", .origin⟩])))

def frameFile : SchemaFile :=
  ⟨⟨0⟩, "frame.proto", ⟨["net", "wire"]⟩,
    [⟨"broken.proto", .publicly⟩, ⟨standardDescriptorPath, .publicly⟩], numberFrom 0 frameOutlines⟩

def brokenResource : Resource := ⟨⟨1⟩, "broken.proto", .fragments (numberFrom 0 frameOutlines)⟩

def relayFile : SchemaFile :=
  ⟨⟨2⟩, "relay.proto", ⟨["net", "relay"]⟩, [⟨"./frame.proto", .plain⟩], numberFrom 0 frameOutlines⟩

def frameHistory : List Operation := [.insert frameFile.toResource, .insert brokenResource]

private theorem frameHistory_wellBuilt : (after frameHistory).WellBuilt := by
  have numbered : number? frameOutlines = some (numberFrom 0 frameOutlines) := by decide
  have resources : (after frameHistory).resources = [brokenResource, frameFile.toResource] := by
    decide
  constructor
  case built =>
    intro resource member
    rw [resources] at member
    simp only [List.mem_cons, List.not_mem_nil, or_false] at member
    rcases member with rfl | rfl
    · exact .fragments numbered
    · exact .complete numbered
  case nested =>
    rw [resources]
    decide

theorem exposesTypes_after_frame :
    (after frameHistory).WellBuilt ∧ TypesNested relayFile.declarations ∧
      (after frameHistory).ExposesTypes .standard relayFile := by
  have relayNested : TypesNested relayFile.declarations := by decide
  exact ⟨frameHistory_wellBuilt, relayNested,
    exposesTypes_after frameHistory .standard relayFile frameHistory_wellBuilt relayNested⟩

end Registry

end SchemaScope
