import SchemaScope.Proofs.Scope.Identity
import SchemaScope.Proofs.Symbol.Refinement

/-!
When an import stands for the built-in catalogue.

Imports are compared with the configured path after their leading `./` steps are dropped, and the
configured path is compared as it is written. So a configured path without such steps is met by
every spelling of it, whatever the registry holds there. A configured path with such steps is met by
no import, not even by one that is spelled like it.
-/

set_option autoImplicit false

namespace SchemaScope

/-- A configured path that starts with `./` is matched by no import at all. -/
theorem Settings.isDescriptor_iff {settings : Settings} {path : String} :
    settings.isDescriptor path = true ↔
      Text.canonicalPath path = Text.canonicalPath settings.descriptorPath ∧
        Text.canonicalPath settings.descriptorPath = settings.descriptorPath := by
  rw [isDescriptor, decide_eq_true_eq]
  constructor
  · intro same
    have canonical : Text.canonicalPath settings.descriptorPath = settings.descriptorPath := by
      rw [← same, Text.canonicalPath_idem]
    exact ⟨same.trans canonical.symm, canonical⟩
  · intro same
    exact same.1.trans same.2

/-- Ordinals are distinct, so nothing is listed twice. -/
theorem Resource.Built.nodup_listing {resource : Resource} (built : resource.Built)
    (filter : Filter) : (resource.listing filter).Nodup := by
  have distinct : (resource.declarations.places.map fun place => place.label.ordinal).Nodup := by
    cases built with
    | complete numbered => exact nodup_ordinals_places numbered
    | fragments numbered => exact nodup_ordinals_places numbered
  refine List.Nodup.of_map (fun description => description.declaration.id.ordinal) ?_
  rw [listing_eq_map, List.map_map]
  exact distinct.sublist (List.filter_sublist.map _)

namespace Catalogue

private theorem nodup_listingAt (filter : Filter) (path : String) :
    (listingAt filter path).Nodup := by
  rw [listingAt_eq_listing]
  exact (built path).nodup_listing filter

private theorem listingAt_ne_nil (path : String) : listingAt .all path ≠ [] := by
  rw [listingAt_eq_listing]
  exact List.cons_ne_nil _ _

end Catalogue

namespace Registry

variable {registry : Registry} {settings : Settings} {root : SchemaFile} {statement : Import}

private theorem findings_of_yields {trail : Trail}
    (course : registry.Yields settings root.package root.imports [] trail) :
    registry.findings settings root = trail.findings := by
  obtain ⟨met, found⟩ := registry.yields_findings settings root
  exact congrArg Trail.findings (found.unique course)

private theorem entries_importedScope_of_descriptor (registry : Registry) (filter : Filter)
    (only : root.imports = [statement]) (descriptor : settings.isDescriptor statement.path = true) :
    (registry.importedScope settings root filter).entries =
      Catalogue.listingAt filter settings.descriptorPath := by
  have course : registry.Yields settings root.package root.imports []
      ⟨[], [.catalogue statement.path]⟩ := by
    rw [only]
    exact .catalogue descriptor .nil
  rw [importedScope, findings_of_yields course, SymbolIndex.entries_ofList, List.flatMap_singleton]
  exact eraseDups_of_nodup (Catalogue.nodup_listingAt filter settings.descriptorPath)

private theorem entries_importedScope_of_error {failure : ResolveFailure} (filter : Filter)
    (only : root.imports = [statement]) (ordinary : settings.isDescriptor statement.path = false)
    (failed : registry.resolve statement.path = .error failure) :
    (registry.importedScope settings root filter).entries = [] := by
  have course : registry.Yields settings root.package root.imports []
      ⟨[], [.unresolved statement.path failure]⟩ := by
    rw [only]
    exact .unresolved ordinary failed .nil
  rw [importedScope, findings_of_yields course]
  rfl

private theorem not_reachesCatalogue (registry : Registry) (root : SchemaFile)
    (dotted : Text.canonicalPath settings.descriptorPath ≠ settings.descriptorPath) :
    ¬ registry.ReachesCatalogue settings root := by
  intro reached
  cases reached with
  | direct _ descriptor => exact dotted (Settings.isDescriptor_iff.mp descriptor).2
  | onward _ _ _ _ descriptor => exact dotted (Settings.isDescriptor_iff.mp descriptor).2

end Registry

namespace Settings

open Registry

variable {settings : Settings}

/-- Whoever imports the configured path, in any spelling, sees the whole catalogue, and gets nothing
else from that import. -/
def ShortCircuits (settings : Settings) : Prop :=
  ∀ (history : List Operation) (filter : Filter) (root : SchemaFile), ∀ statement ∈ root.imports,
    Text.canonicalPath statement.path = Text.canonicalPath settings.descriptorPath →
    (∀ description ∈ Catalogue.listingAt filter settings.descriptorPath,
      description ∈ ((after history).visibleScope settings root filter).entries) ∧
    (root.imports = [statement] →
      ((after history).importedScope settings root filter).entries =
        Catalogue.listingAt filter settings.descriptorPath)

private theorem shortCircuits_of_canonical
    (canonical : Text.canonicalPath settings.descriptorPath = settings.descriptorPath) :
    settings.ShortCircuits := by
  intro history filter root statement imported same
  have descriptor := isDescriptor_iff.mpr ⟨same, canonical⟩
  constructor
  · intro description listed
    have justified : (after history).Justifies settings root (.catalogue statement.path) :=
      .direct imported descriptor
    exact SymbolIndex.mem_entries_merge.mpr
      (.inr ((consistent_after history).mem_importedScope_of_justifies justified listed))
  · intro only
    exact (after history).entries_importedScope_of_descriptor filter only descriptor

/-- Without resources an import of the configured path itself would lead nowhere if it did not
match. -/
theorem ShortCircuits.canonical (shortCircuits : settings.ShortCircuits) :
    Text.canonicalPath settings.descriptorPath = settings.descriptorPath := by
  by_contra dotted
  let statement : Import := ⟨settings.descriptorPath, .plain⟩
  let root : SchemaFile := ⟨⟨0⟩, "", .default, [statement], .nil⟩
  have ordinary : settings.isDescriptor statement.path = false := by
    rw [Bool.eq_false_iff]
    intro descriptor
    exact dotted (isDescriptor_iff.mp descriptor).2
  have whole := (shortCircuits [] .all root statement List.mem_cons_self rfl).2 rfl
  rw [entries_importedScope_of_error .all rfl ordinary rfl] at whole
  exact Catalogue.listingAt_ne_nil settings.descriptorPath whole.symm

/-- The configured path short-circuits exactly when it is written without leading `./` steps. With
such steps, no file reaches the catalogue. -/
theorem shortCircuits_iff_canonical (settings : Settings) :
    (settings.ShortCircuits ↔
      Text.canonicalPath settings.descriptorPath = settings.descriptorPath) ∧
    (Text.canonicalPath settings.descriptorPath ≠ settings.descriptorPath →
      ∀ history root, ¬ (after history).ReachesCatalogue settings root) := by
  constructor
  · exact ⟨ShortCircuits.canonical, shortCircuits_of_canonical⟩
  · intro dotted history root
    exact (after history).not_reachesCatalogue root dotted

end Settings

namespace Registry

/-! A kit, and a yard whose only import is spelled like the configured path. -/

def dottedSettings : Settings := ⟨"./kit.proto", true, true⟩

def kitFile : SchemaFile :=
  ⟨⟨0⟩, "kit.proto", ⟨["kit"]⟩, [], numberFrom 0 (.leaves [⟨.enum, "Bolt", .origin⟩])⟩

def yardFile : SchemaFile := ⟨⟨1⟩, "yard.proto", ⟨["yard"]⟩, [⟨"./kit.proto", .plain⟩], .nil⟩

def yardHistory : List Operation := [.insert kitFile.toResource, .insert yardFile.toResource]

def typeDescription : Description :=
  ⟨⟨["google", "protobuf", "FieldDescriptorProto", "Type"]⟩,
    ⟨⟨.builtin, 36⟩, .enum, "Type", "./kit.proto", .origin⟩⟩

theorem dotted_path_resolved :
    yardFile.imports = [⟨dottedSettings.descriptorPath, .plain⟩] ∧
      ((after yardHistory).importedScope dottedSettings yardFile .enums).entries =
        [⟨⟨["kit", "Bolt"]⟩, ⟨⟨⟨0⟩, 0⟩, .enum, "Bolt", "kit.proto", .origin⟩⟩] ∧
      typeDescription ∈ Catalogue.listingAt .enums dottedSettings.descriptorPath ∧
      typeDescription ∉ ((after yardHistory).visibleScope dottedSettings yardFile .enums).entries :=
  ⟨by decide, by decide, by decide +kernel, by decide⟩

end Registry

end SchemaScope
