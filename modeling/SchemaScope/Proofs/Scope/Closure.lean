import SchemaScope.Proofs.Scope.Reachable
import SchemaScope.Proofs.Scope.Termination

/-!
The walk misses nothing that the imports of a file reach.

A resource that was met before is passed over, even while its own imports are still being followed.
No contribution is lost by that: at the end of the walk every encounter has been expanded, which
means that its resource is recorded and that whatever its public imports lead to has been met. So
the imported scope is exactly what the reachable resources contribute.
-/

set_option autoImplicit false

namespace SchemaScope.Registry

variable {registry : Registry} {settings : Settings} {root : SchemaFile} {package : Package}
  {met : List Encounter} {trail : Trail}

/-- What an import stands for has found its way into a trail. -/
structure Accounts (registry : Registry) (settings : Settings) (trail : Trail)
    (package : Package) (statement : Import) : Prop where
  catalogue : settings.isDescriptor statement.path = true →
    ∃ path, Finding.catalogue path ∈ trail.findings
  resource : ∀ resource, registry.LeadsTo settings statement resource →
    (resource.uri, package) ∈ trail.met

/-- The resource of an encounter is recorded, and its onward imports are accounted for. -/
structure Expanded (registry : Registry) (settings : Settings) (trail : Trail)
    (resource : Resource) (package : Package) : Prop where
  resolved : ∃ path, registry.resolve path = .ok resource
  recorded : ∃ path, Walk.recorded package path resource ∈ trail.findings
  onward : ∀ statement ∈ resource.onward settings,
    registry.Accounts settings trail resource.package statement

theorem Accounts.mono {larger : Trail} {statement : Import}
    (accounts : registry.Accounts settings trail package statement)
    (metGrows : trail.met ⊆ larger.met) (findingsGrow : trail.findings ⊆ larger.findings) :
    registry.Accounts settings larger package statement where
  catalogue descriptor := by
    obtain ⟨path, found⟩ := accounts.catalogue descriptor
    exact ⟨path, findingsGrow found⟩
  resource resource leads := metGrows (accounts.resource resource leads)

theorem Expanded.mono {larger : Trail} {resource : Resource}
    (expanded : registry.Expanded settings trail resource package)
    (metGrows : trail.met ⊆ larger.met) (findingsGrow : trail.findings ⊆ larger.findings) :
    registry.Expanded settings larger resource package where
  resolved := expanded.resolved
  recorded := by
    obtain ⟨path, found⟩ := expanded.recorded
    exact ⟨path, findingsGrow found⟩
  onward statement member := (expanded.onward statement member).mono metGrows findingsGrow

/-- A trail that covers imports accounts for each of them and has expanded what it added. -/
structure Covers (registry : Registry) (settings : Settings) (package : Package)
    (imports : List Import) (met : List Encounter) (trail : Trail) : Prop where
  accounts : ∀ statement ∈ imports, registry.Accounts settings trail package statement
  expanded : ∀ encounter ∈ trail.met, encounter ∈ met ∨
    ∃ resource, resource.uri = encounter.1 ∧
      registry.Expanded settings trail resource encounter.2

/-- One more finding in front accounts for one more import and takes nothing away from the
others. -/
theorem Covers.cons {statement : Import} {rest : List Import} {finding : Finding}
    (covers : registry.Covers settings package rest met trail)
    (first : registry.Accounts settings ⟨trail.met, finding :: trail.findings⟩ package statement) :
    registry.Covers settings package (statement :: rest) met
      ⟨trail.met, finding :: trail.findings⟩ where
  accounts other member := by
    rcases List.mem_cons.mp member with rfl | later
    · exact first
    · exact (covers.accounts other later).mono (List.Subset.refl _) (List.subset_cons_self _ _)
  expanded encounter member := by
    rcases covers.expanded encounter member with earlier | ⟨resource, named, expanded⟩
    · exact .inl earlier
    · exact .inr ⟨resource, named,
        expanded.mono (List.Subset.refl _) (List.subset_cons_self _ _)⟩

/-- What a trail has met at its end was met before, is this resource, or was met inside of it or for
a later import. All but the first have been expanded by then. -/
theorem Covers.entered {statement : Import} {rest : List Import} {inner : Trail}
    {resource : Resource} (leads : registry.LeadsTo settings statement resource)
    (innerSuffix : (resource.uri, package) :: met <:+ inner.met)
    (restSuffix : inner.met <:+ trail.met)
    (innerCovers : registry.Covers settings resource.package (resource.onward settings)
      ((resource.uri, package) :: met) inner)
    (restCovers : registry.Covers settings package rest inner.met trail) :
    registry.Covers settings package (statement :: rest) met
      ⟨trail.met, inner.findings ++ Walk.recorded package statement.path resource
        :: trail.findings⟩ := by
  have fromInner : inner.findings ⊆ inner.findings ++
      Walk.recorded package statement.path resource :: trail.findings :=
    List.subset_append_left _ _
  have fromRest : trail.findings ⊆ inner.findings ++
      Walk.recorded package statement.path resource :: trail.findings :=
    List.Subset.trans (List.subset_cons_self _ _) (List.subset_append_right _ _)
  have here : (resource.uri, package) ∈ trail.met :=
    restSuffix.subset (innerSuffix.subset List.mem_cons_self)
  constructor
  case accounts =>
    intro other member
    rcases List.mem_cons.mp member with rfl | later
    · constructor
      case catalogue => exact fun descriptor => by cases descriptor.symm.trans leads.1
      case resource => exact fun found foundLeads => leads.unique foundLeads ▸ here
    · exact (restCovers.accounts other later).mono (List.Subset.refl _) fromRest
  case expanded =>
    intro encounter member
    -- entered for a later import, inside this resource, this resource itself, or before
    rcases restCovers.expanded encounter member with behind | ⟨found, named, expanded⟩
    · rcases innerCovers.expanded encounter behind with earlier | ⟨found, named, expanded⟩
      · rcases List.mem_cons.mp earlier with rfl | before
        · refine .inr ⟨resource, rfl, ⟨_, leads.2⟩, ⟨statement.path, by simp⟩, ?_⟩
          intro onward onwardMember
          exact (innerCovers.accounts onward onwardMember).mono restSuffix.subset fromInner
        · exact .inl before
      · exact .inr ⟨found, named, expanded.mono restSuffix.subset fromInner⟩
    · exact .inr ⟨found, named, expanded.mono (List.Subset.refl _) fromRest⟩

/-- Every course covers its imports, also where it passes over what was met before. -/
theorem Yields.covers {imports : List Import}
    (course : registry.Yields settings package imports met trail) :
    registry.Covers settings package imports met trail := by
  induction course with
  | nil => exact ⟨by simp, fun _ member => .inl member⟩
  | catalogue descriptor _ restIH =>
      refine restIH.cons ⟨fun _ => ⟨_, List.mem_cons_self⟩, fun resource leads => ?_⟩
      cases descriptor.symm.trans leads.1
  | unresolved ordinary failed _ restIH =>
      refine restIH.cons ⟨fun descriptor => ?_, fun resource leads => ?_⟩
      · cases descriptor.symm.trans ordinary
      · cases failed.symm.trans leads.2
  | repeated leads known rest restIH =>
      refine restIH.cons ⟨fun descriptor => ?_, fun resource otherLeads => ?_⟩
      · cases descriptor.symm.trans leads.1
      · exact leads.unique otherLeads ▸ rest.met_suffix.subset known
  | entered leads _ inner rest innerIH restIH =>
      exact .entered leads inner.met_suffix rest.met_suffix innerIH restIH

/-! ## Whatever is reached has been expanded -/

theorem Reaches.resolved {resource : Resource}
    (reached : registry.Reaches settings root resource package) :
    ∃ path, registry.resolve path = .ok resource := by
  cases reached with
  | direct _ leads => exact ⟨_, leads.2⟩
  | onward _ _ _ _ leads => exact ⟨_, leads.2⟩

private theorem Covers.expanded_of_met (consistent : registry.Consistent) {imports : List Import}
    (covers : registry.Covers settings root.package imports [] trail) {resource : Resource}
    (reached : registry.Reaches settings root resource package)
    (known : (resource.uri, package) ∈ trail.met) :
    registry.Expanded settings trail resource package := by
  rcases covers.expanded _ known with absent | ⟨found, named, expanded⟩
  · cases absent
  · obtain ⟨path, resolved⟩ := reached.resolved
    obtain ⟨other, otherResolved⟩ := expanded.resolved
    obtain rfl := consistent.resolve_unique otherResolved resolved named
    exact expanded

private theorem Covers.met_of_reaches (consistent : registry.Consistent)
    (covers : registry.Covers settings root.package root.imports [] trail) {resource : Resource}
    (reached : registry.Reaches settings root resource package) :
    (resource.uri, package) ∈ trail.met := by
  induction reached with
  | direct member leads => exact (covers.accounts _ member).resource _ leads
  | onward middleReached follows complete member leads middleIH =>
      have expanded := covers.expanded_of_met consistent middleReached middleIH
      have onward := expanded.onward _ (Resource.mem_onward_iff.mpr ⟨follows, _, complete, member⟩)
      rw [Resource.package_of_file? complete] at onward
      exact onward.resource _ leads

/-- Whatever a file reaches has been entered, although the walk may have come to it another way. -/
theorem Covers.expanded_of_reaches (consistent : registry.Consistent)
    (covers : registry.Covers settings root.package root.imports [] trail) {resource : Resource}
    (reached : registry.Reaches settings root resource package) :
    registry.Expanded settings trail resource package :=
  covers.expanded_of_met consistent reached (covers.met_of_reaches consistent reached)

theorem Covers.catalogue_of_reaches (consistent : registry.Consistent)
    (covers : registry.Covers settings root.package root.imports [] trail)
    (reached : registry.ReachesCatalogue settings root) :
    ∃ path, Finding.catalogue path ∈ trail.findings := by
  cases reached with
  | direct member descriptor => exact (covers.accounts _ member).catalogue descriptor
  | onward middleReached follows complete member descriptor =>
      have expanded := covers.expanded_of_reaches consistent middleReached
      exact (expanded.onward _
        (Resource.mem_onward_iff.mpr ⟨follows, _, complete, member⟩)).catalogue descriptor

/-! ## The imported scope -/

theorem mem_entries_importedScope {filter : Filter} {description : Description} :
    description ∈ (registry.importedScope settings root filter).entries ↔
      ∃ finding ∈ registry.findings settings root,
        description ∈ finding.descriptions settings filter := by
  simp [importedScope]

/-- A related file contributes its local scope, and any other resource its listing. -/
theorem mem_descriptions_recorded {filter : Filter} {path : String} {resource : Resource}
    {description : Description} :
    description ∈ (Walk.recorded package path resource).descriptions settings filter ↔
      (∃ file, resource.file? = some file ∧ package.related file.package = true ∧
        description ∈ (file.localScope filter).entries) ∨
      ((∀ file, resource.file? = some file → package.related file.package = false) ∧
        description ∈ resource.listing filter) := by
  unfold Walk.recorded
  cases complete : resource.file? with
  | none => simp [Finding.descriptions]
  | some file =>
      cases related : package.related file.package with
      | true => simp [Finding.descriptions, related]
      | false => simp [Finding.descriptions, related]

/-- Nothing that a justified finding contributes is missing, even if the walk did not make that
finding. -/
theorem Consistent.mem_importedScope_of_justifies (consistent : registry.Consistent)
    {filter : Filter} {finding : Finding} {description : Description}
    (justified : registry.Justifies settings root finding)
    (offered : description ∈ finding.descriptions settings filter) :
    description ∈ (registry.importedScope settings root filter).entries := by
  obtain ⟨met, course⟩ := registry.yields_findings settings root
  have covers := course.covers
  rw [mem_entries_importedScope]
  cases finding with
  | catalogue path =>
      obtain ⟨other, found⟩ := covers.catalogue_of_reaches consistent justified
      exact ⟨_, found, offered⟩
  | unresolved path failure => cases offered
  | repeated path package => cases offered
  | related path file =>
      obtain ⟨resource, package, reached, complete, related⟩ := justified
      obtain ⟨other, found⟩ := (covers.expanded_of_reaches consistent reached).recorded
      exact ⟨_, found, mem_descriptions_recorded.mpr (.inl ⟨file, complete, related, offered⟩)⟩
  | unrelated path resource =>
      obtain ⟨package, reached, unrelated⟩ := justified
      obtain ⟨other, found⟩ := (covers.expanded_of_reaches consistent reached).recorded
      exact ⟨_, found, mem_descriptions_recorded.mpr (.inr ⟨unrelated, offered⟩)⟩

/-- The imported scope has exactly what justified findings contribute. -/
theorem Consistent.mem_importedScope_iff_justified (consistent : registry.Consistent)
    {filter : Filter} {description : Description} :
    description ∈ (registry.importedScope settings root filter).entries ↔
      ∃ finding, registry.Justifies settings root finding ∧
        description ∈ finding.descriptions settings filter := by
  constructor
  · intro member
    obtain ⟨finding, found, offered⟩ := mem_entries_importedScope.mp member
    exact ⟨finding, registry.justifies_of_mem_findings settings root finding found, offered⟩
  · intro exists_justified
    obtain ⟨finding, justified, offered⟩ := exists_justified
    exact consistent.mem_importedScope_of_justifies justified offered

/-- After every history, a file gets from its imports exactly the local scopes of the reachable
files in related packages, the listings of the other reachable resources, and the catalogue if it is
reachable. -/
theorem mem_importedScope_iff_reaches (history : List Operation) (settings : Settings)
    (root : SchemaFile) (filter : Filter) (description : Description) :
    description ∈ ((after history).importedScope settings root filter).entries ↔
      (∃ resource package file, (after history).Reaches settings root resource package ∧
        resource.file? = some file ∧ package.related file.package = true ∧
        description ∈ (file.localScope filter).entries) ∨
      (∃ resource package, (after history).Reaches settings root resource package ∧
        (∀ file, resource.file? = some file → package.related file.package = false) ∧
        description ∈ resource.listing filter) ∨
      ((after history).ReachesCatalogue settings root ∧
        description ∈ Catalogue.listingAt filter settings.descriptorPath) := by
  rw [(consistent_after history).mem_importedScope_iff_justified]
  constructor
  · rintro ⟨finding, justified, offered⟩
    cases finding with
    | catalogue path => exact .inr (.inr ⟨justified, offered⟩)
    | unresolved path failure => cases offered
    | repeated path package => cases offered
    | related path file =>
        obtain ⟨resource, package, reached, complete, related⟩ := justified
        exact .inl ⟨resource, package, file, reached, complete, related, offered⟩
    | unrelated path resource =>
        obtain ⟨package, reached, unrelated⟩ := justified
        exact .inr (.inl ⟨resource, package, reached, unrelated, offered⟩)
  · rintro (⟨resource, package, file, reached, complete, related, offered⟩ |
      ⟨resource, package, reached, unrelated, offered⟩ | ⟨reached, offered⟩)
    · exact ⟨.related file.uri file, ⟨resource, package, reached, complete, related⟩, offered⟩
    · exact ⟨.unrelated resource.uri resource, ⟨package, reached, unrelated⟩, offered⟩
    · exact ⟨.catalogue settings.descriptorPath, reached, offered⟩

end SchemaScope.Registry
