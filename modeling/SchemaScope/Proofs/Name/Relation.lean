import SchemaScope.Proofs.Name.Dotted

/-!
When two packages are related.

Packages are inside of each other, so they make up a tree with the default package at its root. Two
packages are related when they are on one way down from the root, and then the longer of them is
inside of both. Otherwise their ways part at a segment, and they never meet again below it.
-/

set_option autoImplicit false

namespace SchemaScope

private theorem Text.joinDots_concat_append (shared : List String) (segment more : String) :
    joinDots (shared ++ [segment ++ more]) = joinDots (shared ++ [segment]) ++ more := by
  simp only [joinDots_eq_intercalate]
  cases shared with
  | nil => rfl
  | cons first rest =>
      have around : first :: rest ≠ [] := List.cons_ne_nil first rest
      rw [String.intercalate_append_of_ne_nil around (List.cons_ne_nil _ _),
        String.intercalate_append_of_ne_nil around (List.cons_ne_nil _ _),
        String.intercalate_singleton, String.intercalate_singleton]
      simp only [String.append_assoc]

namespace Package

variable {left right outer : Package}

/-- A package contains those that start with all its segments, itself among them. -/
def Contains (outer inner : Package) : Prop :=
  outer.segments <+: inner.segments

/-- Two packages that agree up to some segment and have different ones there. -/
def Parts (left right : Package) : Prop :=
  ∃ shared first second, first ≠ second ∧
    shared ++ [first] <+: left.segments ∧ shared ++ [second] <+: right.segments

private theorem default_contains (package : Package) : Package.default.Contains package :=
  List.nil_prefix

/-! ## Packages on one way -/

theorem related_iff : left.related right = true ↔ left.Contains right ∨ right.Contains left := by
  simp only [related, Bool.or_eq_true, List.isPrefixOf_iff_prefix, Contains]

theorem related_of_contains (contained : left.Contains right) : left.related right = true :=
  related_iff.mpr (.inl contained)

theorem related_iff_common :
    left.related right = true ↔ ∃ inner : Package, left.Contains inner ∧ right.Contains inner := by
  rw [related_iff]
  constructor
  · rintro (contained | contained)
    · exact ⟨right, contained, List.prefix_rfl⟩
    · exact ⟨left, List.prefix_rfl, contained⟩
  · rintro ⟨inner, leftContains, rightContains⟩
    exact List.prefix_or_prefix_of_prefix leftContains rightContains

theorem related_comm (left right : Package) : left.related right = right.related left :=
  Bool.or_comm _ _

/-- Of two packages only the longer one can be inside of the other. -/
private theorem related_eq_of_length_le (shorter : left.segments.length ≤ right.segments.length) :
    left.related right = left.segments.isPrefixOf right.segments := by
  rw [Bool.eq_iff_iff, related_iff, List.isPrefixOf_iff_prefix]
  constructor
  · rintro (contained | contained)
    · exact contained
    · have same : right.segments = left.segments := contained.eq_of_length_le shorter
      exact same ▸ List.prefix_rfl
  · exact Or.inl

private theorem related_eq_shorter (left right : Package) :
    left.related right =
      if left.segments.length ≤ right.segments.length then
        left.segments.isPrefixOf right.segments
      else right.segments.isPrefixOf left.segments := by
  split
  next shorter => exact related_eq_of_length_le shorter
  next longer =>
      rw [related_comm]
      exact related_eq_of_length_le (Nat.le_of_not_le longer)

/-! ## Packages whose ways part -/

theorem Parts.inside {leftInner rightInner : Package} (parts : left.Parts right)
    (leftContains : left.Contains leftInner) (rightContains : right.Contains rightInner) :
    leftInner.Parts rightInner := by
  obtain ⟨shared, first, second, differ, onLeft, onRight⟩ := parts
  exact ⟨shared, first, second, differ, onLeft.trans leftContains, onRight.trans rightContains⟩

/-- A package inside of both would have to go on through two segments at once. -/
theorem Parts.unrelated (parts : left.Parts right) : left.related right = false := by
  obtain ⟨shared, first, second, differ, onLeft, onRight⟩ := parts
  rw [Bool.eq_false_iff]
  intro related
  obtain ⟨inner, leftContains, rightContains⟩ := related_iff_common.mp related
  have ordered := List.prefix_or_prefix_of_prefix (onLeft.trans leftContains)
    (onRight.trans rightContains)
  have same : shared ++ [first] = shared ++ [second] := by
    rcases ordered with ahead | ahead
    · exact ahead.eq_of_length (by simp)
    · exact (ahead.eq_of_length (by simp)).symm
  exact differ (List.singleton_inj.mp (List.append_cancel_left same))

private theorem parts_or_related (left right : List String) :
    Parts ⟨left⟩ ⟨right⟩ ∨ related ⟨left⟩ ⟨right⟩ = true := by
  induction left generalizing right with
  | nil => exact .inr (related_of_contains (default_contains _))
  | cons first leftRest restIH =>
      cases right with
      | nil => exact .inr (related_iff.mpr (.inr (default_contains _)))
      | cons second rightRest =>
          by_cases same : first = second
          · subst same
            rcases restIH rightRest with parts | related
            · obtain ⟨shared, leftNext, rightNext, differ, onLeft, onRight⟩ := parts
              exact .inl ⟨first :: shared, leftNext, rightNext, differ,
                (List.prefix_cons_inj first).mpr onLeft, (List.prefix_cons_inj first).mpr onRight⟩
            · rw [related_iff] at related ⊢
              exact .inr (related.imp (List.prefix_cons_inj first).mpr
                (List.prefix_cons_inj first).mpr)
          · exact .inl ⟨[], first, second, same, ⟨leftRest, rfl⟩, ⟨rightRest, rfl⟩⟩

/-- Unrelated packages have a first segment at which they part. -/
theorem unrelated_iff_parts : left.related right = false ↔ left.Parts right := by
  constructor
  · intro unrelated
    rcases parts_or_related left.segments right.segments with parts | related
    · exact parts
    · exact absurd related (Bool.eq_false_iff.mp unrelated)
  · exact Parts.unrelated

/-! ## Packages around and inside of related and unrelated ones -/

private theorem unrelated_inside {leftInner rightInner : Package}
    (unrelated : left.related right = false)
    (leftContains : left.Contains leftInner) (rightContains : right.Contains rightInner) :
    leftInner.related rightInner = false :=
  ((unrelated_iff_parts.mp unrelated).inside leftContains rightContains).unrelated

private theorem related_around (related : left.related right = true)
    (contains : outer.Contains left) :
    outer.related right = true := by
  obtain ⟨inner, leftContains, rightContains⟩ := related_iff_common.mp related
  exact related_iff_common.mpr ⟨inner, contains.trans leftContains, rightContains⟩

theorem related_siblings_iff {shared : List String} {first second : String} :
    related ⟨shared ++ [first]⟩ ⟨shared ++ [second]⟩ = true ↔ first = second := by
  constructor
  · intro related
    by_cases same : first = second
    · exact same
    · have parts : Parts ⟨shared ++ [first]⟩ ⟨shared ++ [second]⟩ :=
        ⟨shared, first, second, same, List.prefix_rfl, List.prefix_rfl⟩
      exact absurd related (Bool.eq_false_iff.mp parts.unrelated)
  · rintro rfl
    exact related_of_contains List.prefix_rfl

/-- What makes two packages related. Their segments are compared and not their texts, so a package
is unrelated to one whose last segment merely goes on. -/
structure RelationLaws (left right : Package) : Prop where
  common : left.related right = true ↔
    ∃ inner : Package, left.Contains inner ∧ right.Contains inner
  nested : left.related right = true ↔ left.Contains right ∨ right.Contains left
  shorter : left.related right =
    if left.segments.length ≤ right.segments.length then
      left.segments.isPrefixOf right.segments
    else right.segments.isPrefixOf left.segments
  parts : left.related right = false ↔ left.Parts right
  refl : left.related left = true
  symm : left.related right = right.related left
  default_related : Package.default.related right = true ∧ left.related .default = true
  around_left : ∀ outer : Package, outer.Contains left → left.related right = true →
    outer.related right = true
  around_right : ∀ outer : Package, outer.Contains right → left.related right = true →
    left.related outer = true
  inside : ∀ leftInner rightInner : Package, left.Contains leftInner → right.Contains rightInner →
    left.related right = false → leftInner.related rightInner = false
  longer_segment : ∀ segment more : String,
    render ⟨left.segments ++ [segment ++ more]⟩ =
      render ⟨left.segments ++ [segment]⟩ ++ more ∧
    (related ⟨left.segments ++ [segment]⟩ ⟨left.segments ++ [segment ++ more]⟩ = true ↔ more = "")

theorem relationLaws (left right : Package) : RelationLaws left right where
  common := related_iff_common
  nested := related_iff
  shorter := related_eq_shorter left right
  parts := unrelated_iff_parts
  refl := related_of_contains List.prefix_rfl
  symm := related_comm left right
  default_related := by
    refine ⟨related_of_contains (default_contains right), ?_⟩
    rw [related_comm]
    exact related_of_contains (default_contains left)
  around_left := fun _ contains related => related_around related contains
  around_right := by
    intro outer contains related
    rw [related_comm] at related ⊢
    exact related_around related contains
  inside := fun _ _ leftContains rightContains unrelated =>
    unrelated_inside unrelated leftContains rightContains
  longer_segment := by
    intro segment more
    refine ⟨Text.joinDots_concat_append left.segments segment more, ?_⟩
    rw [related_siblings_iff, eq_comm, String.append_eq_left_iff]

/-- The relation is not transitive: the default package is between any two packages. -/
example : related ⟨["a"]⟩ .default = true ∧ related .default ⟨["b"]⟩ = true ∧
    related ⟨["a"]⟩ ⟨["b"]⟩ = false := by decide

end Package

end SchemaScope
