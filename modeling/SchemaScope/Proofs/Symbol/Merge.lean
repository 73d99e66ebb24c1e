import SchemaScope.Proofs.Symbol.Refinement

/-!
The laws of merging.

To merge an index is to offer what was offered to it, so merging follows the laws of joining lists,
and offering again what an index already holds changes nothing. A name stands first for what it
stands for in the left index.
-/

set_option autoImplicit false

namespace SchemaScope.SymbolIndex

variable {index : SymbolIndex}

/-! ## Merging is joining -/

private theorem extend_concat (index : SymbolIndex) (descriptions : List Description)
    (description : Description) :
    index.extend (descriptions ++ [description]) =
      (index.extend descriptions).insert description :=
  index.extend_append descriptions [description]

theorem extend_eraseDups (index : SymbolIndex) (descriptions : List Description) :
    index.extend descriptions.eraseDups = index.extend descriptions := by
  induction descriptions using List.reverseRecOn with
  | nil => rfl
  | append_singleton earlier description earlierIH =>
      rw [eraseDups_concat, extend_concat]
      split
      next offered =>
          have held : description ∈ (index.extend earlier).entries :=
            mem_entries_extend.mpr (.inr offered)
          rw [earlierIH, insert_of_mem held]
      next => rw [extend_concat, earlierIH]

private theorem merge_ofList (index : SymbolIndex) (descriptions : List Description) :
    index.merge (ofList descriptions) = index.extend descriptions := by
  rw [merge, entries_ofList, extend_eraseDups]

/-- An index of two lists is the merge of their indexes. -/
theorem ofList_append (first second : List Description) :
    ofList (first ++ second) = (ofList first).merge (ofList second) := by
  rw [merge_ofList]
  exact empty.extend_append first second

/-! ## Where a name leads after a merge -/

theorem Faithful.mem_lookupAll (faithful : index.Faithful) {name : QualifiedName}
    {declaration : Declaration} :
    declaration ∈ index.lookupAll name ↔ ⟨name, declaration⟩ ∈ index.entries := by
  rw [faithful.lookupAll, List.mem_map]
  constructor
  · intro found
    obtain ⟨description, member, rfl⟩ := found
    obtain ⟨held, named⟩ := List.mem_filter.mp member
    exact Description.isNamed_iff.mp named ▸ held
  · intro held
    exact ⟨_, List.mem_filter.mpr ⟨held, Description.isNamed_iff.mpr rfl⟩, rfl⟩

theorem entries_merge (first second : List Description) :
    ((ofList first).merge (ofList second)).entries =
      (ofList first).entries ++
        (ofList second).entries.filter fun description =>
          description ∉ (ofList first).entries := by
  have distinct : (second.eraseDups.removeAll first).Nodup :=
    (nodup_eraseDups second).filter _
  have added : second.eraseDups.removeAll first =
      second.eraseDups.filter fun description => description ∉ (ofList first).entries := by
    simp [List.removeAll]
  rw [merge, entries_extend_eq_eraseDups (entries_ofList first), List.eraseDups_append,
    entries_ofList second, eraseDups_of_nodup distinct, added, entries_ofList first]

/-- Of two descriptions with the same name, one is held exactly when its declaration is found. -/
theorem lookupAll_merge (first second : List Description) (name : QualifiedName) :
    ((ofList first).merge (ofList second)).lookupAll name =
      (ofList first).lookupAll name ++
        ((ofList second).lookupAll name).filter fun declaration =>
          declaration ∉ (ofList first).lookupAll name := by
  have faithful := faithful_ofList first
  have otherFaithful := faithful_ofList second
  have merged : ((ofList first).merge (ofList second)).Faithful := faithful.extend _
  have sameTest : ∀ description ∈ (ofList second).entries,
      (description.isNamed name && decide (description ∉ (ofList first).entries)) =
        (decide (description.declaration ∉ (ofList first).lookupAll name) &&
          description.isNamed name) := by
    intro description _
    cases named : description.isNamed name with
    | false => simp
    | true =>
        obtain rfl := Description.isNamed_iff.mp named
        simp [faithful.mem_lookupAll]
  rw [merged.lookupAll, entries_merge, List.filter_append, List.map_append, ← faithful.lookupAll,
    otherFaithful.lookupAll, List.filter_map, List.filter_filter, List.filter_filter,
    List.filter_congr sameTest]
  rfl

/-! ## The laws -/

/-- Merging is associative, with the empty index as its unit, and takes in nothing twice. The order
of two indexes matters for the order of the entries only, where the left index comes first. -/
structure MergeLaws (left middle right : SymbolIndex) : Prop where
  assoc : (left.merge middle).merge right = left.merge (middle.merge right)
  merge_empty : left.merge .empty = left
  empty_merge : SymbolIndex.empty.merge left = left
  merge_self : left.merge left = left
  merge_left_again : (left.merge middle).merge left = left.merge middle
  merge_middle_again : (left.merge middle).merge middle = left.merge middle
  mem_comm : ∀ description,
    description ∈ (left.merge middle).entries ↔ description ∈ (middle.merge left).entries
  lookup? : ∀ name,
    (left.merge middle).lookup? name = (left.lookup? name).or (middle.lookup? name)
  lookupAll : ∀ name, (left.merge middle).lookupAll name =
    left.lookupAll name ++
      (middle.lookupAll name).filter fun declaration => declaration ∉ left.lookupAll name

theorem mergeLaws_ofList (first second third : List Description) :
    MergeLaws (ofList first) (ofList second) (ofList third) where
  assoc := by
    simp only [← ofList_append, List.append_assoc]
  merge_empty := rfl
  empty_merge := merge_ofList empty first
  merge_self := extend_of_subset fun _ held => held
  merge_left_again := extend_of_subset fun _ held => mem_entries_merge.mpr (.inl held)
  merge_middle_again := extend_of_subset fun _ held => mem_entries_merge.mpr (.inr held)
  mem_comm := by
    intro description
    simp only [mem_entries_merge, or_comm]
  lookup? := (faithful_ofList first).lookup?_merge (faithful_ofList second)
  lookupAll := lookupAll_merge first second

end SchemaScope.SymbolIndex
