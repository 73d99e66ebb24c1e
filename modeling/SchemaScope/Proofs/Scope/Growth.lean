import SchemaScope.Proofs.Registry.Frame
import SchemaScope.Proofs.Scope.Closure

/-!
Loading one more file never hides a name.

The new file may open further ways through public imports, close cycles, and change which resource
is met first and where a walk turns back. None of this matters for which names there are: what was
reached before is still reached, from the same packages, and contributes as before.
-/

set_option autoImplicit false

namespace SchemaScope.Registry

variable {registry larger : Registry} {settings : Settings} {root : SchemaFile}

/-- Every path that leads to a resource leads to the same one in a larger registry. -/
def Includes (larger registry : Registry) : Prop :=
  ∀ path resource, registry.resolve path = .ok resource → larger.resolve path = .ok resource

theorem Includes.leadsTo (includes : larger.Includes registry) {statement : Import}
    {resource : Resource} (leads : registry.LeadsTo settings statement resource) :
    larger.LeadsTo settings statement resource :=
  ⟨leads.1, includes _ _ leads.2⟩

/-- More resources never make a file reach less. -/
theorem Includes.reaches (includes : larger.Includes registry) {resource : Resource}
    {package : Package} (reached : registry.Reaches settings root resource package) :
    larger.Reaches settings root resource package := by
  induction reached with
  | direct member leads => exact .direct member (includes.leadsTo leads)
  | onward _ follows complete member leads middleIH =>
      exact .onward middleIH follows complete member (includes.leadsTo leads)

private theorem Includes.reachesCatalogue (includes : larger.Includes registry)
    (reached : registry.ReachesCatalogue settings root) :
    larger.ReachesCatalogue settings root := by
  cases reached with
  | direct member descriptor => exact .direct member descriptor
  | onward middle follows complete member descriptor =>
      exact .onward (includes.reaches middle) follows complete member descriptor

theorem Includes.justifies (includes : larger.Includes registry) {finding : Finding}
    (justified : registry.Justifies settings root finding) :
    larger.Justifies settings root finding := by
  cases finding with
  | catalogue path => exact includes.reachesCatalogue justified
  | unresolved path failure => trivial
  | repeated path package => trivial
  | related path file =>
      obtain ⟨resource, package, reached, complete, related⟩ := justified
      exact ⟨resource, package, includes.reaches reached, complete, related⟩
  | unrelated path resource =>
      obtain ⟨package, reached, unrelated⟩ := justified
      exact ⟨package, includes.reaches reached, unrelated⟩

theorem Includes.mem_visibleScope (includes : larger.Includes registry)
    (consistent : registry.Consistent) (largerConsistent : larger.Consistent) {filter : Filter}
    {description : Description}
    (visible : description ∈ (registry.visibleScope settings root filter).entries) :
    description ∈ (larger.visibleScope settings root filter).entries := by
  rcases SymbolIndex.mem_entries_merge.mp visible with own | imported
  · exact SymbolIndex.mem_entries_merge.mpr (.inl own)
  · obtain ⟨finding, justified, offered⟩ := consistent.mem_importedScope_iff_justified.mp imported
    exact SymbolIndex.mem_entries_merge.mpr (.inr
      (largerConsistent.mem_importedScope_of_justifies (includes.justifies justified) offered))

/-- The id is free or belongs to this very uri, so no other uri is evicted. -/
theorem Consistent.includes_insert (consistent : registry.Consistent) {resource : Resource}
    {failure : ResolveFailure} (unreachable : registry.resolve resource.uri = .error failure)
    (unclaimed : ∀ uri, registry.uri? resource.id = some uri →
      uri = Text.canonicalPath resource.uri) :
    (registry.insert resource).Includes registry := by
  intro path found resolved
  have different : Text.canonicalPath path ≠ Text.canonicalPath resource.uri := by
    intro same
    have stored := (registry.outcome?_congr same).symm.trans (outcome?_of_resolve resolved)
    simp [resolve, stored] at unreachable
  have untouched : ¬ registry.Touches (.insert resource) path := by
    intro touched
    rcases touched with same | owner
    · exact different same
    · exact different (unclaimed _ owner)
  have kept := consistent.outcome?_apply untouched
  rw [apply_insert] at kept
  rw [← resolved]
  exact resolve_congr kept

/-- After every history, inserting a resource at a uri that leads to none, under an id that no other
uri has, keeps every description of every scope. -/
theorem visibleScope_keeps_on_insert (history : List Operation) (settings : Settings)
    (root : SchemaFile) (filter : Filter) (resource : Resource)
    (unreachable : ∃ failure, (after history).resolve resource.uri = .error failure)
    (unclaimed : ∀ uri, (after history).uri? resource.id = some uri →
      uri = Text.canonicalPath resource.uri) :
    ∀ description ∈ ((after history).visibleScope settings root filter).entries,
      description ∈ (((after history).insert resource).visibleScope settings root
        filter).entries := by
  intro description visible
  have consistent := consistent_after history
  obtain ⟨failure, failed⟩ := unreachable
  exact (consistent.includes_insert failed unclaimed).mem_visibleScope consistent
    (consistent.insert resource) visible

/-! Two files that import each other publicly, the first of which could not be parsed at first. -/

def tideFile (id : UInt32) (uri package : String) (imports : List Import) : SchemaFile :=
  ⟨⟨id⟩, uri, ⟨[package]⟩, imports, .leaves [⟨⟨.message, "Level", .origin⟩, 0⟩]⟩

def ebb : SchemaFile := tideFile 0 "ebb.proto" "low" [⟨"flood.proto", .publicly⟩]

def flood : SchemaFile := tideFile 1 "flood.proto" "high" [⟨"./ebb.proto", .publicly⟩]

def harbour : SchemaFile :=
  tideFile 2 "harbour.proto" "port" [⟨"ebb.proto", .plain⟩, ⟨"flood.proto", .plain⟩]

def tideHistory : List Operation :=
  [.markUnparseable "ebb.proto" "unexpected end of file", .insert flood.toResource]

/-- The new file is met first and leads to the old one, which is then met from two packages. -/
theorem visibleScope_keeps_on_insert_tide :
    (after tideHistory).resolve ebb.uri =
        .error (.unparseable "ebb.proto" "unexpected end of file") ∧
      (after tideHistory).uri? ebb.id = some "ebb.proto" ∧
      ⟨⟨["high", "Level"]⟩, ⟨⟨⟨1⟩, 0⟩, .message, "Level", "flood.proto", .origin⟩⟩ ∈
        ((after tideHistory).visibleScope .standard harbour .types).entries ∧
      ∀ description ∈ ((after tideHistory).visibleScope .standard harbour .types).entries,
        description ∈ (((after tideHistory).insert ebb.toResource).visibleScope .standard harbour
          .types).entries := by
  have unclaimed : ∀ uri, (after tideHistory).uri? ebb.toResource.id = some uri →
      uri = Text.canonicalPath ebb.toResource.uri := by
    intro uri held
    have owner : (after tideHistory).uri? ebb.toResource.id = some "ebb.proto" := by decide
    rw [owner] at held
    obtain rfl := Option.some.inj held
    decide
  exact ⟨by decide, by decide, by decide, visibleScope_keeps_on_insert tideHistory .standard harbour
    .types ebb.toResource ⟨_, rfl⟩ unclaimed⟩

end SchemaScope.Registry
