import Mathlib.Data.List.Nodup
import SchemaScope.Declaration
import SchemaScope.Proofs.Declaration.Placement

/-!
An ordinal stands for one declaration of its file.

Numbering runs through a forest in pre-order and hands out consecutive numbers. As long as the
counter has room for the whole forest, no number comes twice, so an ordinal says where its node is.
-/

set_option autoImplicit false

namespace SchemaScope

theorem Forest.map_label_places {α : Type} (forest : Forest α) :
    forest.places.map Place.label = forest.preorder := by
  induction forest with
  | nil => rfl
  | cons label children siblings childrenIH siblingsIH =>
      have inner : Place.label ∘ Place.under label = Place.label := rfl
      simp only [places, preorder, List.map_append, List.map_cons, List.map_map, inner, childrenIH,
        siblingsIH]

/-- A node takes one number, its children as many as they are, and the rest comes after them. -/
private theorem map_ordinal_numberFrom (next : Nat) (forest : Forest Outline) :
    (numberFrom next forest).preorder.map Node.ordinal =
      (List.range' next forest.size).map UInt32.ofNat := by
  induction forest generalizing next with
  | nil => rfl
  | cons outline children siblings childrenIH siblingsIH =>
      have split : List.range' next (children.size + siblings.size + 1) =
          next :: (List.range' (next + 1) children.size ++
            List.range' (next + 1 + children.size) siblings.size) := by
        rw [List.range'_succ, ← List.range'_append, Nat.one_mul]
      rw [Forest.size, split, numberFrom, Forest.preorder]
      simp only [List.map_append, List.map_cons, childrenIH, siblingsIH, List.cons_append]

private theorem nodup_ordinals_numberFrom {forest : Forest Outline}
    (fits : forest.size < UInt32.size) :
    ((numberFrom 0 forest).preorder.map Node.ordinal).Nodup := by
  rw [map_ordinal_numberFrom]
  refine List.Nodup.map_on ?_ List.nodup_range'
  intro left leftMember right rightMember same
  have leftBelow : left < UInt32.size := by
    have := List.mem_range'_1.mp leftMember
    omega
  have rightBelow : right < UInt32.size := by
    have := List.mem_range'_1.mp rightMember
    omega
  rw [← UInt32.toNat_ofNat_of_lt' leftBelow, same, UInt32.toNat_ofNat_of_lt' rightBelow]

theorem number?_eq_some_iff {outlines : Forest Outline} {forest : Forest Node} :
    number? outlines = some forest ↔
      outlines.size < UInt32.size ∧ numberFrom 0 outlines = forest := by
  simp [number?]

theorem map_toOutline_of_number? {outlines : Forest Outline} {forest : Forest Node}
    (numbered : number? outlines = some forest) : forest.map Node.toOutline = outlines := by
  obtain ⟨_, rfl⟩ := number?_eq_some_iff.mp numbered
  exact map_toOutline_numberFrom 0 outlines

/-- Ordinals are handed out in pre-order and without gaps. -/
theorem ordinals_of_number? {outlines : Forest Outline} {forest : Forest Node}
    (numbered : number? outlines = some forest) :
    forest.preorder.map (fun node => node.ordinal.toNat) = List.range outlines.size := by
  obtain ⟨fits, rfl⟩ := number?_eq_some_iff.mp numbered
  have composed : (fun node : Node => node.ordinal.toNat) = UInt32.toNat ∘ Node.ordinal := rfl
  have kept : (List.range' 0 outlines.size).map (UInt32.toNat ∘ UInt32.ofNat) =
      (List.range' 0 outlines.size).map id := by
    refine List.map_congr_left fun next member => ?_
    have := List.mem_range'_1.mp member
    exact UInt32.toNat_ofNat_of_lt' (by omega)
  rw [composed, ← List.map_map, map_ordinal_numberFrom, List.map_map, kept, List.map_id,
    List.range_eq_range']

theorem nodup_ordinals_places {outlines : Forest Outline} {forest : Forest Node}
    (numbered : number? outlines = some forest) :
    (forest.places.map fun place => place.label.ordinal).Nodup := by
  unfold number? at numbered
  split at numbered
  next fits =>
      cases numbered
      have distinct := nodup_ordinals_numberFrom fits
      rwa [← Forest.map_label_places, List.map_map] at distinct
  next => cases numbered

theorem place_unique_of_number? {outlines : Forest Outline} {forest : Forest Node}
    (numbered : number? outlines = some forest) {place other : Place Node}
    (member : place ∈ forest.places) (otherMember : other ∈ forest.places)
    (same : place.label.ordinal = other.label.ordinal) : place = other :=
  List.inj_on_of_nodup_map (nodup_ordinals_places numbered) member otherMember same

end SchemaScope
