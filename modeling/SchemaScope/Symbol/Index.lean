import SchemaScope.Collection.Table
import SchemaScope.Declaration

/-!
The symbol index: descriptions without repetition, in the order in which they were first offered.

A declaration may stand under many names and a name may stand for many declarations; of the latter
the first offered comes first. Beside the entries the index keeps, for each name, the positions of
its entries, so that a name is looked up without a search through the entries.
-/

set_option autoImplicit false

namespace SchemaScope

/-- Descriptions in order of discovery, with the positions of each name. -/
structure SymbolIndex where
  entries : List Description
  positions : Table QualifiedName (List Nat)

namespace SymbolIndex

def empty : SymbolIndex := ⟨[], .empty⟩

def size (index : SymbolIndex) : Nat := index.entries.length

def isEmpty (index : SymbolIndex) : Bool := index.entries.isEmpty

def positionsOf (index : SymbolIndex) (name : QualifiedName) : List Nat :=
  (index.positions.find? name).getD []

def insert? (index : SymbolIndex) (description : Description) : Option SymbolIndex :=
  if description ∈ index.entries then none
  else some
    { entries := index.entries ++ [description]
      positions := index.positions.insert description.name
        (index.positionsOf description.name ++ [index.entries.length]) }

def insert (index : SymbolIndex) (description : Description) : SymbolIndex :=
  (index.insert? description).getD index

theorem entries_insert (index : SymbolIndex) (description : Description) :
    (index.insert description).entries =
      if description ∈ index.entries then index.entries else index.entries ++ [description] := by
  unfold insert insert?
  split <;> rfl

@[simp] theorem mem_entries_insert {index : SymbolIndex} {description other : Description} :
    other ∈ (index.insert description).entries ↔ other ∈ index.entries ∨ other = description := by
  rw [entries_insert]
  split
  next member =>
      constructor
      · exact .inl
      · rintro (held | rfl)
        · exact held
        · exact member
  next => simp

def extend (index : SymbolIndex) (descriptions : List Description) : SymbolIndex :=
  descriptions.foldl insert index

/-- Nothing that is offered gets lost, and nothing else appears. -/
@[simp] theorem mem_entries_extend {index : SymbolIndex} {descriptions : List Description}
    {other : Description} :
    other ∈ (index.extend descriptions).entries ↔ other ∈ index.entries ∨ other ∈ descriptions := by
  induction descriptions generalizing index with
  | nil => simp [extend]
  | cons description rest ih =>
      have unfolded : index.extend (description :: rest) = (index.insert description).extend rest :=
        rfl
      rw [unfolded, ih, mem_entries_insert, List.mem_cons, or_assoc]

theorem extend_append (index : SymbolIndex) (first second : List Description) :
    index.extend (first ++ second) = (index.extend first).extend second :=
  List.foldl_append

theorem insert_of_mem {index : SymbolIndex} {description : Description}
    (held : description ∈ index.entries) : index.insert description = index := by
  simp [insert, insert?, held]

/-- Offering what is already there changes nothing. -/
theorem extend_of_subset {index : SymbolIndex} {descriptions : List Description}
    (held : ∀ description ∈ descriptions, description ∈ index.entries) :
    index.extend descriptions = index := by
  induction descriptions with
  | nil => rfl
  | cons description rest ih =>
      have unfolded : index.extend (description :: rest) = (index.insert description).extend rest :=
        rfl
      rw [unfolded, insert_of_mem (held description List.mem_cons_self)]
      exact ih fun other member => held other (List.mem_cons_of_mem _ member)

def ofList (descriptions : List Description) : SymbolIndex :=
  empty.extend descriptions

@[simp] theorem mem_entries_ofList {descriptions : List Description} {other : Description} :
    other ∈ (ofList descriptions).entries ↔ other ∈ descriptions := by
  simp [ofList, empty]

def merge (index other : SymbolIndex) : SymbolIndex :=
  index.extend other.entries

@[simp] theorem mem_entries_merge {index other : SymbolIndex} {description : Description} :
    description ∈ (index.merge other).entries ↔
      description ∈ index.entries ∨ description ∈ other.entries :=
  mem_entries_extend

/-- The declarations that a name stands for, the first offered first. -/
def lookupAll (index : SymbolIndex) (name : QualifiedName) : List Declaration :=
  (index.positionsOf name).filterMap fun position =>
    (index.entries[position]?).map Description.declaration

def lookup? (index : SymbolIndex) (name : QualifiedName) : Option Declaration := do
  let position ← (index.positionsOf name).head?
  let description ← index.entries[position]?
  pure description.declaration

def contains (index : SymbolIndex) (name : QualifiedName) : Bool :=
  (index.positions.find? name).isSome

def namesOf (index : SymbolIndex) (id : DeclarationId) : List QualifiedName :=
  (index.entries.filter fun description => description.declaration.id = id).map Description.name

def names (index : SymbolIndex) : List QualifiedName :=
  (index.entries.zipIdx.filter fun (description, position) =>
    (index.positionsOf description.name).head? = some position).map fun entry => entry.1.name

end SymbolIndex

end SchemaScope
