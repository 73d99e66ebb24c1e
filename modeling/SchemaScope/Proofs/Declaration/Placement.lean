import SchemaScope.Proofs.Name.Forms
import SchemaScope.Scope.Offers

/-!
Declarations together with the declarations around them.

The local names of a file and the listing of a resource are collected by two recursions over the
same forest, which enter different nodes and qualify names differently. Both are read off here from
one list: the nodes in pre-order, each with its ancestors.
-/

set_option autoImplicit false

namespace SchemaScope

/-- A node of a forest and the nodes around it, outermost first. -/
structure Place (α : Type) where
  around : List α
  label : α
deriving DecidableEq

def Place.under {α : Type} (outer : α) (place : Place α) : Place α :=
  ⟨outer :: place.around, place.label⟩

/-- The nodes of a forest in pre-order, each with those around it. -/
def Forest.places {α : Type} : Forest α → List (Place α)
  | .nil => []
  | .cons label children siblings =>
      ⟨[], label⟩ :: children.places.map (Place.under label) ++ siblings.places

namespace Place

def isNested (place : Place Node) : Bool :=
  place.around.all fun outer => outer.kind.isMessageLike

/-- All the declarations around a node are messages or groups. -/
def WithinMessages (place : Place Node) : Prop :=
  ∀ outer ∈ place.around, outer.kind = .message ∨ outer.kind = .group

instance (place : Place Node) : Decidable place.WithinMessages :=
  inferInstanceAs (Decidable (∀ outer ∈ place.around, outer.kind = .message ∨ outer.kind = .group))

theorem isNested_iff {place : Place Node} : place.isNested = true ↔ place.WithinMessages := by
  simp only [isNested, WithinMessages, List.all_eq_true, Kind.isMessageLike_iff]

def chain (place : Place Node) : List String :=
  place.around.map (fun outer => outer.name) ++ [place.label.name]

/-- The names around a node that qualify its own name. -/
def scopes (place : Place Node) : List String :=
  (place.around.filter fun outer => outer.kind.opensScope).map fun outer => outer.name

private theorem scopes_under (outer : Node) (place : Place Node) (scopes : List String) :
    scopes ++ (place.under outer).scopes = outer.innerScopes scopes ++ place.scopes := by
  unfold Node.innerScopes Place.scopes Place.under
  cases opens : outer.kind.opensScope with
  | true => simp [opens]
  | false => simp [opens]

/-- Within messages every name on the way qualifies. -/
theorem scopes_of_isNested {place : Place Node} (nested : place.isNested = true) :
    place.scopes = place.around.map fun outer => outer.name := by
  have opens : ∀ outer ∈ place.around, outer.kind.opensScope = true := by
    intro outer member
    have messageLike := List.all_eq_true.mp nested outer member
    cases kind : outer.kind <;> simp_all [Kind.isMessageLike, Kind.opensScope]
  rw [scopes, List.filter_eq_self.mpr opens]

end Place

/-! ## The listing of a resource -/

def Resource.describe (resource : Resource) (scopes : List String) (place : Place Node) :
    Description :=
  ⟨fullName place.label.name (scopes ++ place.scopes) resource.package,
    place.label.record resource.id resource.uri⟩

/-- Going one node further in is the same as starting from its inner scopes. -/
private theorem Resource.fullOffers_eq_map (resource : Resource) (filter : Filter)
    (scopes : List String) (forest : Forest Node) :
    resource.fullOffers filter scopes forest =
      (forest.places.filter fun place => filter.accepts place.label.kind).map
        (resource.describe scopes) := by
  induction forest generalizing scopes with
  | nil => rfl
  | cons node children siblings childrenIH siblingsIH =>
      have inner : (children.places.map (Place.under node)).filter
            (fun place => filter.accepts place.label.kind) =
          (children.places.filter fun place => filter.accepts place.label.kind).map
            (Place.under node) := by
        rw [List.filter_map]
        rfl
      have moved : resource.describe scopes ∘ Place.under node =
          resource.describe (node.innerScopes scopes) := by
        funext place
        simp only [Function.comp_apply, describe, Place.scopes_under]
        rfl
      rw [fullOffers, childrenIH, siblingsIH, Forest.places, List.filter_append, List.filter_cons,
        inner, List.map_append, ← moved, ← List.map_map]
      split
      next => simp [describe, Place.scopes]
      next => simp

/-- A listing has one description for each node that passes the filter, in pre-order. -/
theorem Resource.listing_eq_map (resource : Resource) (filter : Filter) :
    resource.listing filter =
      (resource.declarations.places.filter fun place => filter.accepts place.label.kind).map
        (resource.describe []) :=
  resource.fullOffers_eq_map filter [] resource.declarations

theorem Resource.listing_congr {left right : Resource} (id : left.id = right.id)
    (uri : left.uri = right.uri) (package : left.package = right.package)
    (declarations : left.declarations = right.declarations) (filter : Filter) :
    left.listing filter = right.listing filter := by
  have described : left.describe [] = right.describe [] := by
    funext place
    simp only [describe, id, uri, package]
  rw [listing_eq_map, listing_eq_map, declarations, described]

theorem Resource.mem_listing {resource : Resource} {filter : Filter} {description : Description} :
    description ∈ resource.listing filter ↔
      ∃ place ∈ resource.declarations.places, filter.accepts place.label.kind = true ∧
        resource.describe [] place = description := by
  simp only [listing_eq_map, List.mem_map, List.mem_filter, and_assoc]

/-! ## The local names of a file -/

def SchemaFile.offersAt (file : SchemaFile) (filter : Filter) (level : Nat) (scopes : List String)
    (place : Place Node) : List Description :=
  if place.isNested && filter.accepts place.label.kind then
    (offeredForms (level + place.around.length) place.label.name
      (scopes ++ place.around.map fun outer => outer.name) file.package).map fun name =>
        ⟨name, place.label.record file.id file.uri⟩
  else []

private theorem SchemaFile.offersAt_under (file : SchemaFile) (filter : Filter) (level : Nat)
    (scopes : List String) (outer : Node) (place : Place Node) :
    file.offersAt filter level scopes (place.under outer) =
      if outer.kind.isMessageLike then
        file.offersAt filter (level + 1) (scopes ++ [outer.name]) place
      else [] := by
  cases entered : outer.kind.isMessageLike with
  | false => simp [offersAt, Place.isNested, Place.under, entered]
  | true =>
      have deeper : level + (place.around.length + 1) = level + 1 + place.around.length := by omega
      simp [offersAt, Place.isNested, Place.under, entered, deeper]

/-- A node is offered if all the nodes around it are entered, at a level that grows with their
number. -/
theorem SchemaFile.localOffers_eq_flatMap (file : SchemaFile) (filter : Filter) (level : Nat)
    (scopes : List String) (forest : Forest Node) :
    file.localOffers filter level scopes forest =
      forest.places.flatMap (file.offersAt filter level scopes) := by
  induction forest generalizing level scopes with
  | nil => rfl
  | cons node children siblings childrenIH siblingsIH =>
      have own : file.offersAt filter level scopes ⟨[], node⟩ =
          file.ownOffers filter level scopes node := by
        simp [offersAt, ownOffers, Place.isNested]
      have inner : (children.places.map (Place.under node)).flatMap
            (file.offersAt filter level scopes) =
          if node.kind.isMessageLike then
            children.places.flatMap (file.offersAt filter (level + 1) (scopes ++ [node.name]))
          else [] := by
        rw [List.flatMap_map]
        simp only [offersAt_under]
        split
        next => rfl
        next => simp
      rw [localOffers, childrenIH, siblingsIH, Forest.places, List.flatMap_append,
        List.flatMap_cons, own, inner]

/-! ## Levels that overflow -/

/-- How deep messages and groups are nested in each other, from the top level of a forest. -/
def messageDepth : Forest Node → Nat
  | .nil => 0
  | .cons node children siblings =>
      max (if node.kind.isMessageLike then messageDepth children + 1 else 0) (messageDepth siblings)

private theorem toNat_level_succ {level : UInt64} (below : level ≠ 0xFFFFFFFFFFFFFFFF) :
    (level + 1).toNat = level.toNat + 1 := by
  have smaller : level.toNat ≠ 18446744073709551615 := fun same => below (UInt64.toNat_inj.mp same)
  have bounded := level.toNat_lt
  rw [UInt64.toNat_add]
  exact Nat.mod_eq_of_lt (by simp; omega)

/-- A checked level overflows exactly if it would in the deepest message, and as long as it does not
the check makes no difference. -/
theorem SchemaFile.localOffers?_eq (file : SchemaFile) (filter : Filter) (level : UInt64)
    (scopes : List String) (forest : Forest Node) :
    file.localOffers? filter level scopes forest =
      if level.toNat + messageDepth forest < UInt64.size then
        some (file.localOffers filter level.toNat scopes forest)
      else none := by
  induction forest generalizing level scopes with
  | nil => simp [localOffers?, localOffers, messageDepth, level.toNat_lt_size]
  | cons node children siblings childrenIH siblingsIH =>
      rw [localOffers?, localOffers, messageDepth, siblingsIH]
      cases entered : node.kind.isMessageLike with
      | false => by_cases fits : level.toNat + messageDepth siblings < UInt64.size <;> simp [fits]
      | true =>
          have room : level.toNat + max (messageDepth children + 1) (messageDepth siblings) <
                UInt64.size ↔
              level.toNat + 1 + messageDepth children < UInt64.size ∧
                level.toNat + messageDepth siblings < UInt64.size := by omega
          simp only [if_true, room]
          by_cases last : level = 0xFFFFFFFFFFFFFFFF
          · have full : level.toNat + 1 = UInt64.size := by rw [last]; rfl
            have past : ¬ level.toNat + 1 + messageDepth children < UInt64.size := by omega
            simp only [if_pos last, past, false_and, if_false]
            rfl
          · rw [if_neg last, childrenIH, toNat_level_succ last]
            by_cases inside : level.toNat + 1 + messageDepth children < UInt64.size
            · by_cases fits : level.toNat + messageDepth siblings < UInt64.size <;>
                simp [inside, fits]
            · simp [inside]

theorem SchemaFile.localScopeAt?_eq (file : SchemaFile) (filter : Filter) (level : UInt64) :
    file.localScopeAt? filter level =
      if level.toNat + messageDepth file.declarations < UInt64.size then
        some (file.localNames filter level.toNat)
      else none := by
  rw [localScopeAt?, localOffers?_eq]
  split <;> rfl

/-! ## The forms of a name seen from the top level -/

/-- At a level as deep as the declaration itself, only the whole chain of scopes and the full name
are left. -/
theorem mem_offeredForms {name : String} {scopes : List String} {package : Package}
    {form : QualifiedName} :
    form ∈ offeredForms scopes.length name scopes package ↔
      form = ⟨scopes ++ [name]⟩ ∨ form = fullName name scopes package := by
  rw [offeredForms, drop_nameForms]
  cases package.isDefault with
  | true => simp
  | false => simp

end SchemaScope
