/-!
Finite tables: at most one value for each key, in no order that anything depends on.

A table is read through `find?`. What each operation does to that reading is stated beside it.
-/

set_option autoImplicit false

namespace SchemaScope

/-- A finite table from keys to values. No key occurs twice. -/
structure Table (κ ν : Type) where
  pairs : List (κ × ν)
  distinct : (pairs.map Prod.fst).Nodup

namespace Table

variable {κ ν : Type}

def empty : Table κ ν := ⟨[], List.nodup_nil⟩

def size (table : Table κ ν) : Nat := table.pairs.length

def keys (table : Table κ ν) : List κ := table.pairs.map Prod.fst

def values (table : Table κ ν) : List ν := table.pairs.map Prod.snd

variable [DecidableEq κ]

def find? (table : Table κ ν) (key : κ) : Option ν :=
  (table.pairs.find? fun pair => pair.1 = key).map Prod.snd

def erase (table : Table κ ν) (key : κ) : Table κ ν where
  pairs := table.pairs.filter fun pair => !decide (pair.1 = key)
  distinct := table.distinct.sublist (List.filter_sublist.map Prod.fst)

theorem notMem_keys_erase (table : Table κ ν) (key : κ) : key ∉ (table.erase key).keys := by
  simp [keys, erase]

def insert (table : Table κ ν) (key : κ) (value : ν) : Table κ ν where
  pairs := (key, value) :: (table.erase key).pairs
  distinct := List.nodup_cons.mpr ⟨table.notMem_keys_erase key, (table.erase key).distinct⟩

/-- Two different keys can be written and erased in either order. -/
theorem erase_insert_of_ne (table : Table κ ν) {key other : κ} (value : ν)
    (different : key ≠ other) :
    (table.insert key value).erase other = (table.erase other).insert key value := by
  simp only [insert, erase, mk.injEq, List.filter_filter]
  rw [List.filter_cons_of_pos (by simp [different]), List.filter_filter]
  simp only [Bool.and_comm]

@[simp] theorem find?_empty (key : κ) : (empty : Table κ ν).find? key = none := rfl

@[simp] theorem find?_erase_self (table : Table κ ν) (key : κ) :
    (table.erase key).find? key = none := by
  simp [find?, erase]

theorem find?_erase_of_ne (table : Table κ ν) {key other : κ} (different : other ≠ key) :
    (table.erase key).find? other = table.find? other := by
  have kept : ∀ pairs : List (κ × ν),
      (pairs.filter fun pair => !decide (pair.1 = key)).find? (fun pair => pair.1 = other)
        = pairs.find? fun pair => pair.1 = other := by
    intro pairs
    rw [List.find?_filter]
    congr 1
    funext pair
    by_cases found : pair.1 = other
    · simp [found, different]
    · simp [found]
  simp only [find?, erase, kept]

theorem find?_erase (table : Table κ ν) (key other : κ) :
    (table.erase key).find? other = if other = key then none else table.find? other := by
  split
  next same => rw [same, find?_erase_self]
  next different => exact table.find?_erase_of_ne different

@[simp] theorem find?_insert_self (table : Table κ ν) (key : κ) (value : ν) :
    (table.insert key value).find? key = some value := by
  simp [find?, insert]

theorem find?_insert (table : Table κ ν) (key other : κ) (value : ν) :
    (table.insert key value).find? other =
      if other = key then some value else table.find? other := by
  split
  next same => rw [same, find?_insert_self]
  next different =>
      have passed : ¬ key = other := fun same => different same.symm
      rw [← table.find?_erase_of_ne different]
      simp [find?, insert, passed]

/-- Reading a table finds exactly its pairs. -/
theorem find?_eq_some_iff {table : Table κ ν} {key : κ} {value : ν} :
    table.find? key = some value ↔ (key, value) ∈ table.pairs := by
  obtain ⟨pairs, distinct⟩ := table
  induction pairs with
  | nil => simp [find?]
  | cons head rest restIH =>
      obtain ⟨headKey, headValue⟩ := head
      obtain ⟨fresh, restDistinct⟩ := List.nodup_cons.mp distinct
      by_cases same : headKey = key
      · subst same
        have absent : (headKey, value) ∉ rest := fun member =>
          fresh (List.mem_map.mpr ⟨(headKey, value), member, rfl⟩)
        simp [find?, absent, eq_comm]
      · have different : ¬ key = headKey := fun equal => same equal.symm
        have restRead := restIH restDistinct
        simp only [find?] at restRead
        simpa [find?, same, different] using restRead

theorem mem_keys_iff {table : Table κ ν} {key : κ} :
    key ∈ table.keys ↔ ∃ value, table.find? key = some value := by
  simp [keys, find?_eq_some_iff]

theorem mem_values_of_find? {table : Table κ ν} {key : κ} {value : ν}
    (found : table.find? key = some value) : value ∈ table.values :=
  List.mem_map.mpr ⟨(key, value), find?_eq_some_iff.mp found, rfl⟩

end Table

end SchemaScope
