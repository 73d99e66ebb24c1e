import SchemaScope.Proofs.Declaration.Placement
import SchemaScope.Proofs.Symbol.Merge

/-!
The local names of a file, at every level.

Two counts grow with the depth of a declaration: the forms of its name, and the number of forms that
a level leaves out. They grow alike, so what is left does not depend on the depth. From the top
level a declaration is offered under its whole chain and under its full name, and from any other
level under its full name alone.
-/

set_option autoImplicit false

namespace SchemaScope

/-! ## Declarations within messages -/

namespace Place

@[simp] private theorem label_under (outer : Node) (place : Place Node) :
    (place.under outer).label = place.label := rfl

@[simp] private theorem length_around_under (outer : Node) (place : Place Node) :
    (place.under outer).around.length = place.around.length + 1 := rfl

@[simp] private theorem isNested_under (outer : Node) (place : Place Node) :
    (place.under outer).isNested = (outer.kind.isMessageLike && place.isNested) := rfl

end Place

/-- The depth is read off the messages within messages, by how many are around them. -/
theorem messageDepth_le_iff {forest : Forest Node} {bound : Nat} :
    messageDepth forest ≤ bound ↔
      ∀ place ∈ forest.places, place.isNested = true → place.label.kind.isMessageLike = true →
        place.around.length + 1 ≤ bound := by
  induction forest generalizing bound with
  | nil => simp [messageDepth, Forest.places]
  | cons node children siblings childrenIH siblingsIH =>
      rw [messageDepth, Nat.max_le, siblingsIH]
      simp only [Forest.places, List.cons_append, List.forall_mem_cons, List.forall_mem_append,
        List.forall_mem_map]
      rw [← and_assoc]
      refine and_congr_left' ?_
      cases entered : node.kind.isMessageLike with
      | false => simp [entered]
      | true =>
          cases bound with
          | zero => simp [Place.isNested]
          | succ bound => simp [childrenIH, entered]

/-! ## The forms that a level leaves -/

/-- The full name comes once as a form of the name and once more on its own. -/
private theorem eraseDups_offeredForms_top (name : String) (scopes : List String)
    (package : Package) :
    (offeredForms scopes.length name scopes package).eraseDups =
      [⟨scopes ++ [name]⟩, fullName name scopes package].eraseDups := by
  rw [offeredForms, drop_nameForms]
  cases package.isDefault with
  | true => rfl
  | false =>
      have repeated : fullName name scopes package ∈
          [⟨scopes ++ [name]⟩, fullName name scopes package] := by simp
      exact (eraseDups_concat _ _).trans (if_pos repeated)

private theorem eraseDups_offeredForms_deeper (level : Nat) (name : String) (scopes : List String)
    (package : Package) :
    (offeredForms (level + 1 + scopes.length) name scopes package).eraseDups =
      [fullName name scopes package] := by
  have past : (scopedForms name scopes).drop (level + 1 + scopes.length) = [] := by
    rw [List.drop_eq_nil_iff, length_scopedForms]
    omega
  rw [offeredForms, nameForms, List.drop_append, past, List.nil_append]
  generalize level + 1 + scopes.length - (scopedForms name scopes).length = rest
  cases package.isDefault with
  | true => simp [List.eraseDups_cons]
  | false =>
      cases rest with
      | zero => simp [List.eraseDups_cons]
      | succ rest => simp [List.eraseDups_cons]

/-! ## The index of a level -/

private theorem SymbolIndex.ofList_eq_of_eraseDups {first second : List Description}
    (same : first.eraseDups = second.eraseDups) : ofList first = ofList second := by
  unfold ofList
  rw [← extend_eraseDups empty first, same, extend_eraseDups]

private theorem SymbolIndex.ofList_flatMap_congr {α : Type} {items : List α}
    {first second : α → List Description}
    (same : ∀ item ∈ items, ofList (first item) = ofList (second item)) :
    ofList (items.flatMap first) = ofList (items.flatMap second) := by
  induction items with
  | nil => rfl
  | cons item rest restIH =>
      have later := restIH fun other member => same other (List.mem_cons_of_mem _ member)
      simp only [List.flatMap_cons, ofList_append, later, same item List.mem_cons_self]

private theorem flatMap_filter {α β : Type} (keep : α → Bool) (images : α → List β)
    (items : List α) :
    (items.filter keep).flatMap images =
      items.flatMap fun item => if keep item then images item else [] := by
  induction items with
  | nil => rfl
  | cons item rest restIH =>
      rw [List.filter_cons, List.flatMap_cons, ← restIH]
      cases keep item with
      | true => rfl
      | false => rfl

namespace SchemaFile

/-- The names of a node that are seen from a level. -/
def namesFrom (file : SchemaFile) (level : Nat) (place : Place Node) : List QualifiedName :=
  if level = 0 then [⟨place.chain⟩, ⟨file.package.segments ++ place.chain⟩]
  else [⟨file.package.segments ++ place.chain⟩]

/-- The names that are seen from a level, of all the nodes that a filter lets through. -/
def namedFrom (file : SchemaFile) (filter : Filter) (level : Nat) : List Description :=
  (file.declarations.places.filter fun place =>
    place.WithinMessages ∧ filter.accepts place.label.kind).flatMap fun place =>
      (file.namesFrom level place).map fun name => ⟨name, place.label.record file.id file.uri⟩

private theorem eraseDups_offeredForms (file : SchemaFile) (level : Nat) (place : Place Node) :
    (offeredForms (level + place.around.length) place.label.name
      (place.around.map fun outer => outer.name) file.package).eraseDups =
      (file.namesFrom level place).eraseDups := by
  have full : fullName place.label.name (place.around.map fun outer => outer.name) file.package =
      ⟨file.package.segments ++ place.chain⟩ := by
    rw [fullName, List.append_assoc, Place.chain]
  have depth : place.around.length = (place.around.map fun outer => outer.name).length := by
    rw [List.length_map]
  cases level with
  | zero =>
      rw [Nat.zero_add, depth, eraseDups_offeredForms_top, full]
      rfl
  | succ level =>
      rw [depth, eraseDups_offeredForms_deeper, full]
      rfl

/-- An index leaves repetitions out, so each declaration comes down to one or two names. -/
theorem localNames_eq_ofList (file : SchemaFile) (filter : Filter) (level : Nat) :
    file.localNames filter level = .ofList (file.namedFrom filter level) := by
  rw [localNames, localOffers_eq_flatMap, namedFrom, flatMap_filter]
  refine SymbolIndex.ofList_flatMap_congr fun place _ => ?_
  have sameTest : (place.isNested && filter.accepts place.label.kind) = true ↔
      place.WithinMessages ∧ filter.accepts place.label.kind = true := by
    rw [Bool.and_eq_true, Place.isNested_iff]
  simp only [offersAt, sameTest, decide_eq_true_eq]
  split
  next =>
      refine SymbolIndex.ofList_eq_of_eraseDups ?_
      rw [List.nil_append, ← eraseDups_map_eraseDups, eraseDups_offeredForms,
        eraseDups_map_eraseDups]
  next => rfl

private theorem eraseDups_namesFrom (file : SchemaFile) (place : Place Node) {level other : Nat}
    (alike : file.package = .default ∨ (level ≠ 0 ∧ other ≠ 0)) :
    (file.namesFrom level place).eraseDups = (file.namesFrom other place).eraseDups := by
  rcases alike with noPackage | ⟨deeper, otherDeeper⟩
  · have once : ∀ level, (file.namesFrom level place).eraseDups = [⟨place.chain⟩] := by
      intro level
      unfold namesFrom
      split
      next => simp [noPackage, Package.default, List.eraseDups_cons]
      next => simp [noPackage, Package.default, List.eraseDups_cons]
    rw [once level, once other]
  · rw [namesFrom, namesFrom, if_neg deeper, if_neg otherDeeper]

/-- Below the top level it does not matter how far below. -/
theorem localNames_eq_of_levels (file : SchemaFile) (filter : Filter) {level other : Nat}
    (alike : file.package = .default ∨ (level ≠ 0 ∧ other ≠ 0)) :
    file.localNames filter level = file.localNames filter other := by
  rw [localNames_eq_ofList, localNames_eq_ofList]
  refine SymbolIndex.ofList_flatMap_congr fun place _ => ?_
  refine SymbolIndex.ofList_eq_of_eraseDups ?_
  rw [← eraseDups_map_eraseDups, file.eraseDups_namesFrom place alike, eraseDups_map_eraseDups]

theorem localScopeAt?_eq_some_iff {file : SchemaFile} {filter : Filter} {level : UInt64}
    {index : SymbolIndex} :
    file.localScopeAt? filter level = some index ↔
      level.toNat + messageDepth file.declarations < UInt64.size ∧
        file.localNames filter level.toNat = index := by
  simp [localScopeAt?_eq]

/-- A level overflows at a message, even at one with nothing inside. -/
theorem localScopeAt?_eq_none_iff {file : SchemaFile} {filter : Filter} {level : UInt64} :
    file.localScopeAt? filter level = none ↔
      ∃ place ∈ file.declarations.places, place.WithinMessages ∧
        (place.label.kind = .message ∨ place.label.kind = .group) ∧
        UInt64.size ≤ level.toNat + place.around.length + 1 := by
  have room : level.toNat + messageDepth file.declarations < UInt64.size ↔
      messageDepth file.declarations ≤ UInt64.size - 1 - level.toNat := by
    have := level.toNat_lt_size
    omega
  have past : ∀ depth,
      ¬ depth ≤ UInt64.size - 1 - level.toNat ↔ UInt64.size ≤ level.toNat + depth := by
    intro depth
    have := level.toNat_lt_size
    omega
  simp only [localScopeAt?_eq, room, ite_eq_right_iff, reduceCtorEq, imp_false, messageDepth_le_iff,
    Place.isNested_iff, Kind.isMessageLike_iff, not_forall, past, exists_prop, Nat.add_assoc]

/-- The local names of a file, seen from a level: there are none exactly if the level overflows
inside of some message, and else they are the names of each declaration within messages, in order
and without later repetitions. All levels but the top level give one index, and in the default
package the top level gives it as well. -/
theorem localScopeAt?_at_every_level (file : SchemaFile) (filter : Filter) (level : UInt64) :
    (file.localScopeAt? filter level = none ↔
      ∃ place ∈ file.declarations.places, place.WithinMessages ∧
        (place.label.kind = .message ∨ place.label.kind = .group) ∧
        UInt64.size ≤ level.toNat + place.around.length + 1) ∧
    (∀ index, file.localScopeAt? filter level = some index →
      index.entries = (file.namedFrom filter level.toNat).eraseDups) ∧
    ∀ other index otherIndex, file.localScopeAt? filter level = some index →
      file.localScopeAt? filter other = some otherIndex →
        (file.package = .default ∨ (1 ≤ level ∧ 1 ≤ other)) → index = otherIndex := by
  refine ⟨localScopeAt?_eq_none_iff, ?_, ?_⟩
  · intro index collected
    obtain ⟨_, rfl⟩ := localScopeAt?_eq_some_iff.mp collected
    rw [localNames_eq_ofList, SymbolIndex.entries_ofList]
  · intro other index otherIndex collected otherCollected alike
    obtain ⟨_, rfl⟩ := localScopeAt?_eq_some_iff.mp collected
    obtain ⟨_, rfl⟩ := localScopeAt?_eq_some_iff.mp otherCollected
    refine file.localNames_eq_of_levels filter (alike.imp_right fun deeper => ?_)
    exact ⟨Nat.ne_zero_of_lt deeper.1, Nat.ne_zero_of_lt deeper.2⟩

end SchemaFile

end SchemaScope
