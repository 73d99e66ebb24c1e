import Mathlib.Data.List.Basic
import SchemaScope.Symbol.Index

/-!
What a lookup in a symbol index finds.

The positions that an index keeps for a name are those of the entries with that name. So a lookup
finds the first such entry, and descriptions that are offered later only matter for names that the
index does not have yet.
-/

set_option autoImplicit false

namespace SchemaScope

def Description.isNamed (name : QualifiedName) (description : Description) : Bool :=
  description.name = name

@[simp] theorem Description.isNamed_iff {name : QualifiedName} {description : Description} :
    description.isNamed name = true ↔ description.name = name :=
  decide_eq_true_iff

private theorem head?_findIdxs {α : Type} (accepts : α → Bool) (items : List α) (start : Nat) :
    (items.findIdxs accepts start).head? = (items.findIdx? accepts).map (start + ·) := by
  induction items generalizing start with
  | nil => rfl
  | cons item rest restIH =>
      rw [List.findIdxs_cons, List.findIdx?_cons]
      cases accepts item with
      | true => rfl
      | false =>
          rw [if_neg Bool.false_ne_true, if_neg Bool.false_ne_true, restIH, Option.map_map]
          congr 1
          funext position
          exact Nat.add_right_comm start 1 position

namespace SymbolIndex

variable {index : SymbolIndex}

/-- The positions kept for each name are those of the entries with that name. -/
def Faithful (index : SymbolIndex) : Prop :=
  ∀ name, index.positionsOf name = index.entries.findIdxs (Description.isNamed name)

theorem faithful_empty : empty.Faithful := fun _ => rfl

theorem insert_of_notMem {description : Description} (fresh : description ∉ index.entries) :
    index.insert description =
      { entries := index.entries ++ [description]
        positions := index.positions.insert description.name
          (index.positionsOf description.name ++ [index.entries.length]) } := by
  simp [SymbolIndex.insert, insert?, fresh]

theorem Faithful.insert (faithful : index.Faithful) (description : Description) :
    (index.insert description).Faithful := by
  intro name
  by_cases held : description ∈ index.entries
  · rw [insert_of_mem held]
    exact faithful name
  · rw [insert_of_notMem held, positionsOf, Table.find?_insert, List.findIdxs_append,
      ← faithful name]
    by_cases own : name = description.name
    · simp [own]
    · have other : description.isNamed name = false := by
        simpa [← Bool.not_eq_true] using Ne.symm own
      simp [own, other, positionsOf]

theorem Faithful.extend (faithful : index.Faithful) (descriptions : List Description) :
    (index.extend descriptions).Faithful := by
  induction descriptions generalizing index with
  | nil => exact faithful
  | cons description rest restIH => exact restIH (faithful.insert description)

theorem faithful_ofList (descriptions : List Description) : (ofList descriptions).Faithful :=
  faithful_empty.extend descriptions

theorem Faithful.head?_positionsOf (faithful : index.Faithful) (name : QualifiedName) :
    (index.positionsOf name).head? = index.entries.findIdx? (Description.isNamed name) := by
  rw [faithful name, head?_findIdxs]
  simp

/-- Looking a name up by its positions finds the first entry with that name. -/
theorem Faithful.lookup? (faithful : index.Faithful) (name : QualifiedName) :
    index.lookup? name =
      (index.entries.find? (Description.isNamed name)).map Description.declaration := by
  unfold SymbolIndex.lookup?
  rw [faithful.head?_positionsOf, List.find?_eq_bind_findIdx?_getElem?]
  cases index.entries.findIdx? (Description.isNamed name) with
  | none => rfl
  | some position =>
      cases held : index.entries[position]? with
      | none => simp [held]
      | some description => simp [held]

private theorem find?_entries_insert (accepts : Description → Bool) (description : Description) :
    (index.insert description).entries.find? accepts =
      (index.entries.find? accepts).or ([description].find? accepts) := by
  rw [entries_insert]
  split
  next held =>
      cases found : index.entries.find? accepts with
      | some first => rfl
      | none =>
          have rejected := List.find?_eq_none.mp found description held
          simp [rejected]
  next => exact List.find?_append

/-- Leaving repetitions out does not change what comes first. -/
theorem find?_entries_extend (accepts : Description → Bool) (descriptions : List Description) :
    (index.extend descriptions).entries.find? accepts =
      (index.entries.find? accepts).or (descriptions.find? accepts) := by
  induction descriptions generalizing index with
  | nil => simp [SymbolIndex.extend]
  | cons description rest restIH =>
      have unfolded : index.extend (description :: rest) = (index.insert description).extend rest :=
        rfl
      rw [unfolded, restIH, find?_entries_insert, Option.or_assoc, ← List.find?_append]
      rfl

/-- A name that the index has keeps its meaning; any other stands for the first description with
that name among those that are offered. -/
theorem Faithful.lookup?_extend (faithful : index.Faithful) (descriptions : List Description)
    (name : QualifiedName) :
    (index.extend descriptions).lookup? name =
      (index.lookup? name).or
        ((descriptions.find? (Description.isNamed name)).map Description.declaration) := by
  rw [(faithful.extend descriptions).lookup?, find?_entries_extend, Option.map_or, faithful.lookup?]

/-- A name is looked up on the left first. -/
theorem Faithful.lookup?_merge {other : SymbolIndex} (faithful : index.Faithful)
    (otherFaithful : other.Faithful) (name : QualifiedName) :
    (index.merge other).lookup? name = (index.lookup? name).or (other.lookup? name) := by
  rw [merge, faithful.lookup?_extend, otherFaithful.lookup?]

theorem Faithful.mem_of_lookup? (faithful : index.Faithful) {name : QualifiedName}
    {declaration : Declaration} (found : index.lookup? name = some declaration) :
    ⟨name, declaration⟩ ∈ index.entries := by
  rw [faithful.lookup?] at found
  obtain ⟨description, first, rfl⟩ := Option.map_eq_some_iff.mp found
  have named := Description.isNamed_iff.mp (List.find?_some first)
  subst named
  exact List.mem_of_find?_eq_some first

theorem Faithful.lookup?_of_mem (faithful : index.Faithful) {name : QualifiedName}
    {declaration : Declaration} (member : ⟨name, declaration⟩ ∈ index.entries) :
    ∃ first, index.lookup? name = some first := by
  rw [faithful.lookup?]
  cases found : index.entries.find? (Description.isNamed name) with
  | some description => exact ⟨description.declaration, rfl⟩
  | none =>
      have rejected := List.find?_eq_none.mp found _ member
      simp at rejected

end SymbolIndex

end SchemaScope
