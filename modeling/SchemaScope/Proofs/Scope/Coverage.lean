import SchemaScope.Proofs.Scope.Levels

/-!
What the listing of a resource covers, and which part of it the local names of a file are.

The listing enters every node and takes a name into the names below it only from some kinds. The
local names enter some kinds and take every name on the way. On the nodes within messages and groups
the two say the same.
-/

set_option autoImplicit false

namespace SchemaScope

/-- The names of the messages, groups and services around a node, outermost first. -/
def Place.qualifiers (place : Place Node) : List String :=
  (place.around.filter fun outer => outer.kind ∈ [Kind.message, .group, .service]).map
    fun outer => outer.name

private theorem Kind.opensScope_eq (kind : Kind) :
    kind.opensScope = decide (kind ∈ [Kind.message, .group, .service]) := by
  cases kind <;> decide

private theorem Place.scopes_eq_qualifiers (place : Place Node) :
    place.scopes = place.qualifiers := by
  simp only [scopes, qualifiers, Kind.opensScope_eq]

private theorem Place.WithinMessages.chain_eq {place : Place Node} (within : place.WithinMessages) :
    place.chain = place.qualifiers ++ [place.label.name] := by
  rw [← scopes_eq_qualifiers, scopes_of_isNested (isNested_iff.mpr within), chain]

namespace Resource

/-- The nodes of a resource that a filter lets through, in pre-order. -/
def accepted (resource : Resource) (filter : Filter) : List (Place Node) :=
  resource.declarations.places.filter fun place => filter.accepts place.label.kind

def fullDescription (resource : Resource) (place : Place Node) : Description :=
  { name := ⟨resource.package.segments ++ place.qualifiers ++ [place.label.name]⟩
    declaration :=
      { id := ⟨resource.id, place.label.ordinal⟩
        kind := place.label.kind
        name := place.label.name
        uri := resource.uri
        range := place.label.range } }

theorem listing_eq_accepted (resource : Resource) (filter : Filter) :
    resource.listing filter = (resource.accepted filter).map resource.fullDescription := by
  have described : resource.describe [] = resource.fullDescription := by
    funext place
    rw [describe, List.nil_append, Place.scopes_eq_qualifiers]
    rfl
  rw [listing_eq_map, described, accepted]

end Resource

namespace SchemaFile

private theorem fullDescription_of_withinMessages (file : SchemaFile) {place : Place Node}
    (within : place.WithinMessages) :
    file.toResource.fullDescription place =
      ⟨⟨file.package.segments ++ place.chain⟩, place.label.record file.id file.uri⟩ := by
  rw [within.chain_eq, ← List.append_assoc]
  rfl

private theorem namedFrom_deeper (file : SchemaFile) (filter : Filter) (level : Nat) :
    file.namedFrom filter (level + 1) =
      ((file.toResource.accepted filter).filter fun place => place.WithinMessages).map
        file.toResource.fullDescription := by
  rw [namedFrom, Resource.accepted, List.filter_filter, List.map_eq_flatMap]
  simp only [Bool.decide_and, Bool.decide_eq_true]
  refine List.flatMap_congr fun place member => ?_
  have within : place.WithinMessages := by
    simpa using (Bool.and_eq_true_iff.mp (List.mem_filter.mp member).2).1
  rw [file.fullDescription_of_withinMessages within]
  rfl

end SchemaFile

private theorem messageDepth_le_size (forest : Forest Node) :
    messageDepth forest ≤ forest.size := by
  induction forest with
  | nil => exact Nat.le_refl _
  | cons node children siblings childrenIH siblingsIH =>
      rw [messageDepth, Forest.size]
      split
      next => omega
      next => omega

/-- Levels cannot overflow in a file that has fewer nodes than there are levels left. -/
theorem SchemaFile.localScopeAt?_of_room (file : SchemaFile) (filter : Filter) {level : UInt64}
    (room : level.toNat + file.declarations.size < UInt64.size) :
    file.localScopeAt? filter level = some (file.localNames filter level.toNat) := by
  have shallow := messageDepth_le_size file.declarations
  exact localScopeAt?_eq_some_iff.mpr ⟨by omega, rfl⟩

/-- The local scope of such a file is what is collected from the top level. -/
theorem SchemaFile.localScopeAt?_zero (file : SchemaFile) (filter : Filter)
    (room : file.declarations.size < UInt64.size) :
    file.localScopeAt? filter 0 = some (file.localScope filter) :=
  file.localScopeAt?_of_room filter (by simpa using room)

/-- The listing of a resource has every node that the filter lets through, once and in pre-order,
under its package, the messages, groups and services around it and its own name. The names of a file
from below its top level are the part of the listing for the nodes within messages and groups; there
are such names unless the file has as many nodes as there are levels. -/
theorem listing_covers_localScopeAt? (resource : Resource) (file : SchemaFile) (filter : Filter) :
    resource.listing filter = (resource.accepted filter).map resource.fullDescription ∧
    (∀ index, file.localScopeAt? filter 1 = some index →
      index.entries =
        (((file.toResource.accepted filter).filter fun place => place.WithinMessages).map
          file.toResource.fullDescription).eraseDups) ∧
    (file.declarations.size + 1 < UInt64.size →
      ∃ index, file.localScopeAt? filter 1 = some index) := by
  refine ⟨resource.listing_eq_accepted filter, ?_, ?_⟩
  · intro index collected
    obtain ⟨_, rfl⟩ := SchemaFile.localScopeAt?_eq_some_iff.mp collected
    have first : (1 : UInt64).toNat = 0 + 1 := rfl
    rw [SchemaFile.localNames_eq_ofList, SymbolIndex.entries_ofList, first,
      SchemaFile.namedFrom_deeper]
  · intro room
    have first : (1 : UInt64).toNat = 1 := rfl
    exact ⟨_, file.localScopeAt?_of_room filter (by omega)⟩

end SchemaScope
