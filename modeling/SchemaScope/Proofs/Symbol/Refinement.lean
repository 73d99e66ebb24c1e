import Mathlib.Data.List.Induction
import Mathlib.Data.List.Nodup
import SchemaScope.Proofs.Symbol.Lookup

/-!
A symbol index as an ordered list without repetitions.

An index may be built by any sequence of insertions, extensions and merges. It is the index of all
the descriptions that were offered on the way, and whatever it answers can be read off the list of
these: the entries are the first occurrences, and the positions kept for a name are those of its
entries.
-/

set_option autoImplicit false

namespace SchemaScope

/-! ## First occurrences -/

section FirstOccurrences

variable {α β : Type} [DecidableEq α] [DecidableEq β]

theorem eraseDups_concat (items : List α) (item : α) :
    (items ++ [item]).eraseDups =
      if item ∈ items then items.eraseDups else items.eraseDups ++ [item] := by
  rw [List.eraseDups_append]
  split
  next held => simp [List.removeAll, held]
  next fresh => simp [List.removeAll, fresh, List.eraseDups_cons]

theorem nodup_eraseDups (items : List α) : items.eraseDups.Nodup := by
  induction items using List.reverseRecOn with
  | nil => exact List.nodup_nil
  | append_singleton earlier item earlierIH =>
      rw [eraseDups_concat]
      split
      next => exact earlierIH
      next fresh =>
          have absent : item ∉ earlier.eraseDups := fun held => fresh (List.mem_eraseDups.mp held)
          exact earlierIH.append (List.nodup_singleton item) (by simpa using absent)

theorem eraseDups_of_nodup {items : List α} (distinct : items.Nodup) :
    items.eraseDups = items := by
  induction items using List.reverseRecOn with
  | nil => rfl
  | append_singleton earlier item earlierIH =>
      obtain ⟨earlierDistinct, _, apart⟩ := List.nodup_append.mp distinct
      have fresh : item ∉ earlier := fun held => apart item held item List.mem_cons_self rfl
      rw [eraseDups_concat, if_neg fresh, earlierIH earlierDistinct]

theorem eraseDups_map_eraseDups (f : α → β) (items : List α) :
    (items.eraseDups.map f).eraseDups = (items.map f).eraseDups := by
  induction items using List.reverseRecOn with
  | nil => rfl
  | append_singleton earlier item earlierIH =>
      have images : f item ∈ earlier.eraseDups.map f ↔ f item ∈ earlier.map f := by
        simp only [List.mem_map, List.mem_eraseDups]
      rw [List.map_append, List.map_singleton, eraseDups_concat (earlier.map f), eraseDups_concat]
      split
      next held => rw [earlierIH, if_pos (List.mem_map_of_mem held)]
      next =>
          rw [List.map_append, List.map_singleton, eraseDups_concat, earlierIH]
          simp only [images]

end FirstOccurrences

private theorem filterMap_findIdxs {α : Type} (accepts : α → Bool) (items : List α) :
    (items.findIdxs accepts).filterMap (fun position => items[position]?) =
      items.filter accepts := by
  have read : ∀ entry ∈ items.zipIdx,
      ((bif accepts entry.1 then some entry.2 else none).bind fun position => items[position]?) =
        Option.guard accepts entry.1 := by
    intro entry member
    have held : items[entry.2]? = some entry.1 := List.mem_zipIdx_iff_getElem?.mp member
    cases accepted : accepts entry.1 with
    | false => simp [Option.guard, accepted]
    | true => simp [Option.guard, accepted, held]
  calc (items.findIdxs accepts).filterMap (fun position => items[position]?)
      = items.zipIdx.filterMap (fun entry => Option.guard accepts entry.1) := by
        rw [List.findIdxs_eq_filterMap_zipIdx, List.filterMap_filterMap]
        exact List.filterMap_congr read
    _ = (items.zipIdx.map Prod.fst).filterMap (Option.guard accepts) := by
        rw [List.filterMap_map]
        rfl
    _ = items.filter accepts := by
        rw [List.zipIdx_map_fst, List.filterMap_eq_filter]

private theorem findIdx?_concat_self (earlier : List Description) (last : Description) :
    (earlier ++ [last]).findIdx? (Description.isNamed last.name) = some earlier.length ↔
      last.name ∉ earlier.map Description.name := by
  have own : [last].findIdx? (Description.isNamed last.name) = some 0 := by
    simp [List.findIdx?_cons]
  rw [List.findIdx?_append, own]
  cases found : earlier.findIdx? (Description.isNamed last.name) with
  | none =>
      have absent := List.findIdx?_eq_none_iff.mp found
      simpa [← Bool.not_eq_true] using absent
  | some position =>
      obtain ⟨inside, named, _⟩ := List.findIdx?_eq_some_iff_getElem.mp found
      have held : last.name ∈ earlier.map Description.name := by
        exact List.mem_map.mpr
          ⟨earlier[position], List.getElem_mem inside, Description.isNamed_iff.mp named⟩
      simp [held, Nat.ne_of_lt inside]

private theorem findIdx?_concat_of_mem {earlier : List Description} {description : Description}
    (member : description ∈ earlier) (last : Description) :
    (earlier ++ [last]).findIdx? (Description.isNamed description.name) =
      earlier.findIdx? (Description.isNamed description.name) := by
  have found : (earlier.findIdx? (Description.isNamed description.name)).isSome = true := by
    rw [List.findIdx?_isSome]
    exact List.any_eq_true.mpr ⟨description, member, Description.isNamed_iff.mpr rfl⟩
  obtain ⟨position, first⟩ := Option.isSome_iff_exists.mp found
  rw [List.findIdx?_append, first]
  rfl

/-- What comes last is nobody's first occurrence but its own. -/
private theorem map_name_filter_findIdx? (entries : List Description) :
    (entries.zipIdx.filter fun entry =>
        entries.findIdx? (Description.isNamed entry.1.name) = some entry.2).map
          (fun entry => entry.1.name) =
      (entries.map Description.name).eraseDups := by
  induction entries using List.reverseRecOn with
  | nil => rfl
  | append_singleton earlier last earlierIH =>
      have kept : ∀ entry ∈ earlier.zipIdx,
          decide ((earlier ++ [last]).findIdx? (Description.isNamed entry.1.name) = some entry.2) =
            decide (earlier.findIdx? (Description.isNamed entry.1.name) = some entry.2) := by
        intro entry member
        rw [findIdx?_concat_of_mem (List.fst_mem_of_mem_zipIdx member)]
      rw [List.zipIdx_append, List.filter_append, List.map_append, List.filter_congr kept,
        earlierIH, List.map_append, List.map_singleton, eraseDups_concat, Nat.zero_add,
        List.zipIdx_singleton]
      split
      next known =>
          rw [List.filter_cons_of_neg (by simpa only [decide_eq_true_eq, findIdx?_concat_self,
            not_not] using known)]
          simp
      next fresh =>
          rw [List.filter_cons_of_pos (by simpa only [decide_eq_true_eq, findIdx?_concat_self]
            using fresh)]
          rfl

namespace SymbolIndex

variable {index : SymbolIndex} {offered descriptions : List Description}

/-! ## The table of positions -/

/-- No name is kept with an empty list of positions. -/
def Occupied (index : SymbolIndex) : Prop :=
  ∀ name, index.positions.find? name ≠ some []

private theorem occupied_empty : empty.Occupied := by
  intro name kept
  cases kept

theorem Occupied.insert (occupied : index.Occupied) (description : Description) :
    (index.insert description).Occupied := by
  intro name
  by_cases held : description ∈ index.entries
  · rw [insert_of_mem held]
    exact occupied name
  · rw [insert_of_notMem held, Table.find?_insert]
    split
    next => simp
    next => exact occupied name

theorem occupied_ofList (descriptions : List Description) : (ofList descriptions).Occupied :=
  List.foldlRecOn descriptions SymbolIndex.insert occupied_empty
    fun _ occupied description _ => occupied.insert description

private theorem Faithful.positions_eq (faithful : index.Faithful) {name : QualifiedName}
    {positions : List Nat} (kept : index.positions.find? name = some positions) :
    positions = index.entries.findIdxs (Description.isNamed name) := by
  have read := faithful name
  rwa [positionsOf, kept] at read

theorem Faithful.mem_keys_iff (faithful : index.Faithful) (occupied : index.Occupied)
    {name : QualifiedName} :
    name ∈ index.positions.keys ↔ ∃ description ∈ index.entries, description.name = name := by
  have found : index.entries.findIdxs (Description.isNamed name) ≠ [] ↔
      ∃ description ∈ index.entries, description.name = name := by
    simp [List.findIdxs_eq_nil_iff]
  rw [← found, ← faithful name, positionsOf, Table.mem_keys_iff]
  cases kept : index.positions.find? name with
  | none => simp
  | some positions =>
      have filled : positions ≠ [] := fun none => occupied name (none ▸ kept)
      simp [filled]

private theorem Faithful.mem_positions_iff (faithful : index.Faithful) {name : QualifiedName}
    {positions : List Nat} (kept : index.positions.find? name = some positions) {position : Nat} :
    position ∈ positions ↔
      ∃ description, index.entries[position]? = some description ∧ description.name = name := by
  rw [faithful.positions_eq kept, List.mem_findIdxs_iff_exists_getElem_pos]
  constructor
  · intro found
    obtain ⟨inside, named⟩ := found
    exact ⟨_, List.getElem?_eq_getElem inside, Description.isNamed_iff.mp named⟩
  · intro found
    obtain ⟨description, held, named⟩ := found
    obtain ⟨inside, rfl⟩ := List.getElem?_eq_some_iff.mp held
    exact ⟨inside, Description.isNamed_iff.mpr named⟩

/-! ## Answers read off the entries -/

theorem isSome_insert?_iff {description : Description} :
    (index.insert? description).isSome = true ↔ description ∉ index.entries := by
  unfold insert?
  split
  next held => simp [held]
  next fresh => simp [fresh]

theorem Faithful.lookupAll (faithful : index.Faithful) (name : QualifiedName) :
    index.lookupAll name =
      (index.entries.filter (Description.isNamed name)).map Description.declaration := by
  rw [← filterMap_findIdxs, ← faithful name, List.map_filterMap]
  rfl

/-- Names come in the order in which they were first offered. -/
theorem Faithful.names (faithful : index.Faithful) :
    index.names = (index.entries.map Description.name).eraseDups := by
  rw [← map_name_filter_findIdx?]
  unfold SymbolIndex.names
  simp only [faithful.head?_positionsOf]

/-! ## Entries are first occurrences -/

private theorem entries_insert_eq_eraseDups (kept : index.entries = offered.eraseDups)
    (description : Description) :
    (index.insert description).entries = (offered ++ [description]).eraseDups := by
  rw [entries_insert, eraseDups_concat, kept]
  simp only [List.mem_eraseDups]

theorem entries_extend_eq_eraseDups (kept : index.entries = offered.eraseDups) :
    (index.extend descriptions).entries = (offered ++ descriptions).eraseDups := by
  induction descriptions generalizing index offered with
  | nil => simpa [extend] using kept
  | cons description rest restIH =>
      have rest := restIH (entries_insert_eq_eraseDups kept description)
      rwa [List.append_assoc] at rest

/-- An index keeps the first occurrence of each description, in order. -/
theorem entries_ofList (descriptions : List Description) :
    (ofList descriptions).entries = descriptions.eraseDups := by
  have start : empty.entries = ([] : List Description).eraseDups := rfl
  exact entries_extend_eq_eraseDups start

/-! ## Every way of building an index -/

inductive Change where
  | insert (description : Description)
  | extend (descriptions : List Description)
  | merge (other : SymbolIndex)

def Change.offers : Change → List Description
  | .insert description => [description]
  | .extend descriptions => descriptions
  | .merge other => other.entries

def change (index : SymbolIndex) : Change → SymbolIndex
  | .insert description => index.insert description
  | .extend descriptions => index.extend descriptions
  | .merge other => index.merge other

def built (changes : List Change) : SymbolIndex :=
  changes.foldl change empty

/-- All descriptions that a sequence of changes offers, in order. -/
def offerings (changes : List Change) : List Description :=
  changes.flatMap Change.offers

private theorem change_eq_extend (index : SymbolIndex) (change : Change) :
    index.change change = index.extend change.offers := by
  cases change with
  | insert description => rfl
  | extend descriptions => rfl
  | merge other => rfl

/-- Inserting, extending and merging all come down to offering descriptions. -/
theorem foldl_change (index : SymbolIndex) (changes : List Change) :
    changes.foldl change index = index.extend (offerings changes) := by
  induction changes generalizing index with
  | nil => rfl
  | cons first rest restIH =>
      rw [List.foldl_cons, restIH, change_eq_extend, ← extend_append]
      rfl

/-- What an index says about the descriptions that were offered to it. -/
structure Represents (index : SymbolIndex) (offered : List Description) : Prop where
  keys : ∀ name, name ∈ index.positions.keys ↔ ∃ description ∈ offered, description.name = name
  positions : ∀ name positions, index.positions.find? name = some positions →
    positions ≠ [] ∧ positions.Pairwise (· < ·) ∧
      ∀ position, position ∈ positions ↔
        ∃ description, index.entries[position]? = some description ∧ description.name = name
  entries : index.entries = offered.eraseDups
  size : index.size = offered.eraseDups.length
  insert? : ∀ description, (index.insert? description).isSome = true ↔ description ∉ offered
  lookup? : ∀ name, index.lookup? name =
    (offered.find? (Description.isNamed name)).map Description.declaration
  lookupAll : ∀ name, index.lookupAll name =
    (offered.eraseDups.filter (Description.isNamed name)).map Description.declaration
  contains : ∀ name, index.contains name = true ↔ ∃ description ∈ offered, description.name = name
  names : index.names = (offered.map Description.name).eraseDups
  namesOf : ∀ id, index.namesOf id =
    (offered.eraseDups.filter fun description => description.declaration.id = id).map
      Description.name

theorem represents_ofList (offered : List Description) : (ofList offered).Represents offered := by
  have faithful := faithful_ofList offered
  have occupied := occupied_ofList offered
  have entries := entries_ofList offered
  have keys : ∀ name, name ∈ (ofList offered).positions.keys ↔
      ∃ description ∈ offered, description.name = name := by
    intro name
    simp only [faithful.mem_keys_iff occupied, mem_entries_ofList]
  constructor
  case keys => exact keys
  case positions =>
    intro name positions kept
    refine ⟨fun none => occupied name (none ▸ kept), ?_, fun position => ?_⟩
    · rw [faithful.positions_eq kept]
      exact List.pairwise_findIdxs
    · exact faithful.mem_positions_iff kept
  case entries => exact entries
  case size => exact congrArg List.length entries
  case insert? =>
    intro description
    rw [isSome_insert?_iff, mem_entries_ofList]
  case lookup? =>
    intro name
    exact faithful_empty.lookup?_extend offered name
  case lookupAll =>
    intro name
    rw [faithful.lookupAll, entries]
  case contains =>
    intro name
    rw [SymbolIndex.contains, Option.isSome_iff_exists, ← Table.mem_keys_iff, keys]
  case names => rw [faithful.names, entries, eraseDups_map_eraseDups]
  case namesOf =>
    intro id
    rw [SymbolIndex.namesOf, entries]

/-- After every sequence of changes, an index is the list of all offered descriptions without later
repetitions, and each of its answers is the one that this list gives. -/
theorem built_represents_offerings (changes : List Change) :
    (built changes).Represents (offerings changes) := by
  have collected : built changes = ofList (offerings changes) := foldl_change empty changes
  rw [collected]
  exact represents_ofList (offerings changes)

end SymbolIndex

end SchemaScope
