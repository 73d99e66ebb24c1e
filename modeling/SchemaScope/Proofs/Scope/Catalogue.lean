import SchemaScope.Proofs.Declaration.Building

/-!
The catalogue as it is kept, filtered and moved, against a scan of the descriptor where it is.

A scan puts the uri of the resource into every record and does nothing else with it, and a filter
decides about each declaration on its own. So a list that was made once, for all kinds and at one
path, gives every other scan of the same declarations.
-/

set_option autoImplicit false

namespace SchemaScope

/-- All of a description but the uri of its record. -/
def Description.apart (description : Description) :
    QualifiedName × DeclarationId × Kind × String × TextRange :=
  (description.name, description.declaration.id, description.declaration.kind,
    description.declaration.name, description.declaration.range)

namespace Catalogue

variable {resource : Resource} {path : String} {builder : FileBuilder}

/-- A resource at a path that has the declarations and the package of the catalogue, and its id. -/
structure HeldAt (path : String) (resource : Resource) : Prop where
  id : resource.id = .builtin
  uri : resource.uri = path
  package : resource.package = .parse "google.protobuf"
  declarations : resource.declarations = declarations

private theorem heldAt_resourceAt (path : String) : HeldAt path (resourceAt path) :=
  ⟨rfl, rfl, rfl, rfl⟩

theorem HeldAt.listing_eq (held : HeldAt path resource) (filter : Filter) :
    resource.listing filter = (resourceAt path).listing filter :=
  have here := heldAt_resourceAt path
  Resource.listing_congr (held.id.trans here.id.symm) (held.uri.trans here.uri.symm)
    (held.package.trans here.package.symm) (held.declarations.trans here.declarations.symm) filter

/-! ## Building the descriptor -/

def emptyFile (path : String) : FileBuilder :=
  (FileBuilder.start .builtin path).inPackage "google.protobuf"

private theorem heldAt_of_declareAll?
    (built : (emptyFile path).declareAll? (descriptors ++ options ++ locations) = some builder) :
    HeldAt path builder.build.toResource := by
  have numbered := FileBuilder.numbered_of_declareAll? rfl built
  rw [FileBuilder.declareAll?_eq_map] at built
  obtain ⟨body, _, rfl⟩ := Option.map_eq_some_iff.mp built
  exact ⟨rfl, rfl, rfl, (number?_eq_some_iff.mp numbered).2.symm⟩

private theorem exists_built (path : String) :
    ∃ builder, (emptyFile path).declareAll? (descriptors ++ options ++ locations) = some builder :=
  FileBuilder.exists_declareAll? _ rfl (by decide +kernel)

/-! ## Moving the list -/

private theorem uri_of_mem_listingAt {filter : Filter} {description : Description}
    (listed : description ∈ listingAt filter path) : description.declaration.uri = path := by
  rw [listingAt_eq_listing] at listed
  exact (Resource.declares_of_mem_listing listed).uri_eq

private theorem map_apart_listingAt (filter : Filter) (path other : String) :
    (listingAt filter path).map Description.apart =
      (listingAt filter other).map Description.apart := by
  have kept : Description.apart ∘ relocate path = Description.apart := rfl
  rw [listingAt_eq_listing, listingAt_eq_listing, ← listing_resourceAt filter other path,
    List.map_map, kept]

/-- At every path the catalogue is what a scan finds in the descriptor there, and the descriptor can
be built there. Its entries have that path as their uri, and all the rest of them is the same at any
other path, in the same order. -/
theorem listingAt_eq_direct_scan (filter : Filter) (path : String) :
    (∀ resource, HeldAt path resource → listingAt filter path = resource.listing filter) ∧
    (∃ builder,
      (emptyFile path).declareAll? (descriptors ++ options ++ locations) = some builder ∧
      HeldAt path builder.build.toResource) ∧
    (∀ description ∈ listingAt filter path, description.declaration.uri = path) ∧
    ∀ other, (listingAt filter path).map Description.apart =
      (listingAt filter other).map Description.apart := by
  refine ⟨fun resource held => ?_, ?_, fun description listed => uri_of_mem_listingAt listed,
    map_apart_listingAt filter path⟩
  · rw [listingAt_eq_listing, held.listing_eq]
  · obtain ⟨builder, built⟩ := exists_built path
    exact ⟨builder, built, heldAt_of_declareAll? built⟩

end Catalogue

end SchemaScope
