import SchemaScope.Proofs.Scope.Descriptor
import SchemaScope.Schema.Builder

/-!
Building a file numbers its declarations in pre-order.

The next ordinal goes into the builder of each declaration and comes back out of it. Whatever was
added before, a forest takes as many ordinals as it has nodes, one after the other, so the nodes of
a file are numbered from zero without gaps. Only a forest that is too large uses the counter up.
-/

set_option autoImplicit false

namespace SchemaScope

namespace Forest

variable {α : Type}

theorem append_nil (forest : Forest α) : forest ++ (.nil : Forest α) = forest := by
  induction forest with
  | nil => rfl
  | cons label children siblings _ siblingsIH => exact congrArg (cons label children) siblingsIH

private theorem append_tree_append (earlier : Forest α) (label : α) (children later : Forest α) :
    earlier ++ tree label children ++ later = earlier ++ cons label children later := by
  induction earlier with
  | nil => rfl
  | cons first inner siblings _ siblingsIH => exact congrArg (cons first inner) siblingsIH

private theorem size_tree (label : α) (children : Forest α) :
    (tree label children).size = children.size + 1 := by
  simp [tree, size]

end Forest

private theorem numberFrom_tree (next : Nat) (outline : Outline) (children : Forest Outline) :
    numberFrom next (.tree outline children) =
      .tree ⟨outline, UInt32.ofNat next⟩ (numberFrom (next + 1) children) := rfl

namespace DeclarationBuilder

variable {builder inner : DeclarationBuilder} {outline : Outline}
  {forest children siblings : Forest Outline}
  {inside : DeclarationBuilder → Option DeclarationBuilder}

/-! ## One declaration -/

private theorem ne_last (room : builder.next.toNat + 1 < UInt32.size) :
    builder.next ≠ 0xFFFFFFFF := by
  intro last
  rw [last] at room
  exact absurd room (by decide)

private theorem toNat_next_start (builder : DeclarationBuilder)
    (room : builder.next.toNat + 1 < UInt32.size) :
    (start (builder.next + 1)).next.toNat = builder.next.toNat + 1 :=
  Registry.toNat_succ (ne_last room)

private theorem declare?_of_last (last : builder.next = 0xFFFFFFFF) :
    builder.declare? outline inside = none := if_pos last

private theorem declare?_of_none (failed : inside (start (builder.next + 1)) = none) :
    builder.declare? outline inside = none := by
  simp [declare?, failed]

private theorem declare?_of_some (room : builder.next.toNat + 1 < UInt32.size)
    (added : inside (start (builder.next + 1)) = some inner) :
    builder.declare? outline inside =
      some ⟨inner.next, builder.added ++ .tree ⟨outline, builder.next⟩ inner.added⟩ := by
  rw [declare?, if_neg (ne_last room), added]
  rfl

/-! ## A forest of declarations -/

/-- A builder after the nodes of a forest were added to it in pre-order. -/
def numbered (builder : DeclarationBuilder) (forest : Forest Outline) : DeclarationBuilder :=
  ⟨UInt32.ofNat (builder.next.toNat + forest.size),
    builder.added ++ numberFrom builder.next.toNat forest⟩

private theorem toNat_next_numbered (builder : DeclarationBuilder) (outline : Outline)
    (children : Forest Outline)
    (fits : builder.next.toNat + (children.size + 1) < UInt32.size) :
    (builder.numbered (.tree outline children)).next.toNat =
      builder.next.toNat + (children.size + 1) := by
  rw [← Forest.size_tree outline] at fits ⊢
  exact UInt32.toNat_ofNat_of_lt' fits

private theorem numbered_nil (builder : DeclarationBuilder) : builder.numbered .nil = builder := by
  rw [numbered, numberFrom, Forest.size, Nat.add_zero, UInt32.ofNat_toNat, Forest.append_nil]

private theorem declare?_of_fits (fits : builder.next.toNat + (children.size + 1) < UInt32.size)
    (added : inside (start (builder.next + 1)) =
      some ((start (builder.next + 1)).numbered children)) :
    builder.declare? outline inside = some (builder.numbered (.tree outline children)) := by
  have room : builder.next.toNat + 1 < UInt32.size := by omega
  have taken : builder.next.toNat + 1 + children.size =
      builder.next.toNat + (children.size + 1) := by omega
  rw [declare?_of_some room added, numbered, numbered, builder.toNat_next_start room, taken,
    Forest.size_tree, numberFrom_tree, UInt32.ofNat_toNat]
  rfl

/-- The trees after a tree go on from where it stopped. -/
private theorem numbered_tree_numbered
    (fits : builder.next.toNat + (children.size + 1) < UInt32.size) :
    (builder.numbered (.tree outline children)).numbered siblings =
      builder.numbered (.cons outline children siblings) := by
  have advanced := builder.toNat_next_numbered outline children fits
  have total : builder.next.toNat + (children.size + siblings.size + 1) =
      builder.next.toNat + (children.size + 1) + siblings.size := by omega
  have later : builder.next.toNat + 1 + children.size =
      builder.next.toNat + (children.size + 1) := by omega
  rw [numbered, advanced]
  simp only [numbered, numberFrom_tree, Forest.append_tree_append, numberFrom, Forest.size, total,
    later]

private theorem declareAll?_of_fits (fits : builder.next.toNat + forest.size < UInt32.size) :
    declareAll? forest builder = some (builder.numbered forest) := by
  induction forest generalizing builder with
  | nil => rw [declareAll?, numbered_nil]
  | cons outline children siblings childrenIH siblingsIH =>
      rw [Forest.size] at fits
      have first := builder.toNat_next_start (by omega)
      have inner : declareAll? children (start (builder.next + 1)) =
          some ((start (builder.next + 1)).numbered children) := childrenIH (by omega)
      have advanced := builder.toNat_next_numbered outline children (by omega)
      rw [declareAll?, declare?_of_fits (by omega) inner, Option.bind_some,
        siblingsIH (by omega), numbered_tree_numbered (by omega)]

/-- The counter ends at this node, inside of it, or in the trees after it. -/
private theorem declareAll?_of_overflow (exceeds : UInt32.size ≤ builder.next.toNat + forest.size) :
    declareAll? forest builder = none := by
  induction forest generalizing builder with
  | nil => exact absurd builder.next.toNat_lt_size (Nat.not_lt.mpr exceeds)
  | cons outline children siblings childrenIH siblingsIH =>
      rw [Forest.size] at exceeds
      rw [declareAll?]
      by_cases last : builder.next = 0xFFFFFFFF
      · rw [declare?_of_last last, Option.bind_none]
      · have first : (start (builder.next + 1)).next.toNat = builder.next.toNat + 1 :=
          Registry.toNat_succ last
        by_cases inner : UInt32.size ≤ builder.next.toNat + 1 + children.size
        · rw [declare?_of_none (childrenIH (by omega)), Option.bind_none]
        · have added : declareAll? children (start (builder.next + 1)) =
              some ((start (builder.next + 1)).numbered children) :=
            declareAll?_of_fits (by omega)
          have advanced := builder.toNat_next_numbered outline children (by omega)
          rw [declare?_of_fits (by omega) added, Option.bind_some, siblingsIH (by omega)]

/-- Numbering a forest at once gives what building it step by step gives, and fails where that
fails. -/
theorem number?_eq_added (forest : Forest Outline) :
    number? forest = (declareAll? forest (start 0)).map added := by
  have zero : (start 0).next.toNat = 0 := rfl
  unfold number?
  split
  next fits =>
      rw [declareAll?_of_fits (by omega)]
      rfl
  next exceeds =>
      rw [declareAll?_of_overflow (by omega)]
      rfl

end DeclarationBuilder

namespace FileBuilder

/-- The top level of a file takes its trees one by one, as a builder does inside of each. -/
theorem declareAll?_eq_map (builder : FileBuilder) (forest : Forest Outline) :
    builder.declareAll? forest =
      (builder.body.declareAll? forest).map fun body => { builder with body } := by
  induction forest generalizing builder with
  | nil => rfl
  | cons outline children siblings _ siblingsIH =>
      have unfolded : builder.declareAll? (.cons outline children siblings) =
          (builder.declare? outline (DeclarationBuilder.declareAll? children)).bind
            fun next => next.declareAll? siblings := rfl
      rw [unfolded, declare?, DeclarationBuilder.declareAll?]
      cases builder.body.declare? outline (DeclarationBuilder.declareAll? children) with
      | none => rfl
      | some body => exact siblingsIH { builder with body }

theorem numbered_of_declareAll? {builder built : FileBuilder} {outlines : Forest Outline}
    (fresh : builder.body = .start 0) (added : builder.declareAll? outlines = some built) :
    number? outlines = some built.body.added := by
  rw [declareAll?_eq_map, fresh] at added
  obtain ⟨body, declared, rfl⟩ := Option.map_eq_some_iff.mp added
  rw [DeclarationBuilder.number?_eq_added, declared]
  rfl

theorem exists_declareAll? (builder : FileBuilder) {outlines : Forest Outline}
    (fresh : builder.body = .start 0) (fits : outlines.size < UInt32.size) :
    ∃ built, builder.declareAll? outlines = some built := by
  have zero : (DeclarationBuilder.start 0).next.toNat = 0 := rfl
  rw [declareAll?_eq_map, fresh, DeclarationBuilder.declareAll?_of_fits (by omega)]
  exact ⟨_, rfl⟩

end FileBuilder

private theorem Resource.length_listing (resource : Resource) (filter : Filter) :
    (resource.listing filter).length =
      resource.declarations.preorder.countP fun node => filter.accepts node.kind := by
  rw [listing_eq_map, List.length_map, ← Forest.map_label_places, List.countP_map,
    List.countP_eq_length_filter]
  rfl

theorem Resource.Built.size_index {resource : Resource} (built : resource.Built) (filter : Filter) :
    (SymbolIndex.ofList (resource.listing filter)).size =
      resource.declarations.preorder.countP fun node => filter.accepts node.kind := by
  rw [SymbolIndex.size, SymbolIndex.entries_ofList, eraseDups_of_nodup (built.nodup_listing filter),
    length_listing]

/-- What a resource has of the forest that it was built from. -/
structure Resource.BuiltFrom (resource : Resource) (outlines : Forest Outline) : Prop where
  shape : resource.declarations.map Node.toOutline = outlines
  ordinals : resource.declarations.preorder.map (fun node => node.ordinal.toNat) =
    List.range outlines.size
  distinct : (resource.declarations.preorder.map Node.ordinal).Nodup
  indexed : ∀ filter, (SymbolIndex.ofList (resource.listing filter)).size =
    outlines.preorder.countP fun outline => filter.accepts outline.kind

theorem Resource.Built.builtFrom {resource : Resource} (built : resource.Built)
    {outlines : Forest Outline} (numbered : number? outlines = some resource.declarations) :
    resource.BuiltFrom outlines := by
  have shape := map_toOutline_of_number? numbered
  have ordinals := ordinals_of_number? numbered
  constructor
  case shape => exact shape
  case ordinals => exact ordinals
  case distinct =>
    refine List.Nodup.of_map UInt32.toNat ?_
    rw [List.map_map]
    exact ordinals ▸ List.nodup_range
  case indexed =>
    intro filter
    rw [built.size_index, ← shape, Forest.preorder_map, List.countP_map]
    rfl

/-- A forest with fewer nodes than there are ordinals can always be built, as a file and as
fragments. Both have its shape and its outlines, their ordinals count up from zero in pre-order, and
an index of their listing holds every node that a filter lets through. -/
theorem build_numbers_in_preorder (id : FileId) (uri : String) (package : Package)
    (imports : List Import) (outlines : Forest Outline) (fits : outlines.size ≤ 2 ^ 32 - 1) :
    ∃ builder, (FileBuilder.mk id uri package imports (.start 0)).declareAll? outlines =
        some builder ∧
      builder.build.toResource.BuiltFrom outlines ∧ builder.buildFragments.BuiltFrom outlines := by
  have room : outlines.size < UInt32.size := Nat.lt_of_le_of_lt fits (by decide)
  obtain ⟨builder, added⟩ :=
    (FileBuilder.mk id uri package imports (.start 0)).exists_declareAll? rfl room
  have numbered := FileBuilder.numbered_of_declareAll? rfl added
  exact ⟨builder, added, Resource.Built.builtFrom (.complete numbered) numbered,
    Resource.Built.builtFrom (.fragments numbered) numbered⟩

/-! A file with a message in a message and values in an enum. -/

def surveyOutlines : Forest Outline :=
  .cons ⟨.message, "Site", .origin⟩
    (.cons ⟨.field, "depth", .origin⟩ .nil
      (.tree ⟨.message, "Core", .origin⟩ (.leaves [⟨.field, "layer", .origin⟩])))
    (.tree ⟨.enum, "Soil", .origin⟩
      (.leaves [⟨.enumValue, "CLAY", .origin⟩, ⟨.enumValue, "SAND", .origin⟩]))

theorem build_numbers_in_preorder_survey :
    surveyOutlines.size ≤ 2 ^ 32 - 1 ∧
      ∃ builder, (FileBuilder.mk ⟨4⟩ "survey.proto" ⟨["field"]⟩ [] (.start 0)).declareAll?
          surveyOutlines = some builder ∧
        builder.build.toResource.BuiltFrom surveyOutlines ∧
        builder.buildFragments.BuiltFrom surveyOutlines :=
  ⟨by decide,
    build_numbers_in_preorder ⟨4⟩ "survey.proto" ⟨["field"]⟩ [] surveyOutlines (by decide)⟩

end SchemaScope
