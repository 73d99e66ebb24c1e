import SchemaScope.Name

/-!
Dotted text and the segments in it.

Cutting a text at its dots and writing pieces with dots between them undo each other. Reading drops
the empty pieces afterwards. So segments are read back from their dotted text exactly when reading
can give them at all: none of them is empty and none has a dot in it.
-/

set_option autoImplicit false

namespace SchemaScope

namespace Text

variable {segment : String} {names : List String} {piece text : List Char}

/-- A segment that reading can give. -/
def Clean (segment : String) : Prop :=
  segment ≠ "" ∧ '.' ∉ segment.toList

/-! ## Reading -/

private theorem pieces_eq_splitOn (text : List Char) : pieces text = text.splitOn '.' := by
  induction text with
  | nil => rfl
  | cons char rest restIH =>
      rw [pieces, List.splitOn_cons_eq_if_modifyHead, restIH]
      simp only [beq_iff_eq]

/-- A character that is not a dot goes to the front of the first piece of the rest. -/
private theorem dot_notMem_of_mem_pieces (member : piece ∈ pieces text) : '.' ∉ piece := by
  induction text generalizing piece with
  | nil =>
      rw [List.mem_singleton.mp member]
      exact List.not_mem_nil
  | cons char rest restIH =>
      rw [pieces] at member
      split at member
      next =>
          rcases List.mem_cons.mp member with rfl | later
          · exact List.not_mem_nil
          · exact restIH later
      next other =>
          cases cut : pieces rest with
          | nil =>
              rw [cut] at member
              exact absurd member List.not_mem_nil
          | cons first later =>
              rw [cut, List.modifyHead_cons] at member
              rw [cut] at restIH
              rcases List.mem_cons.mp member with rfl | inLater
              · have noDot := restIH List.mem_cons_self
                exact List.not_mem_cons_of_ne_of_not_mem (Ne.symm other) noDot
              · exact restIH (List.mem_cons_of_mem first inLater)

/-- Whatever is read, no segment is empty or holds a dot. -/
theorem clean_of_mem_segments {dotted : String} (member : segment ∈ segments dotted) :
    Clean segment := by
  obtain ⟨piece, kept, rfl⟩ := List.mem_map.mp member
  obtain ⟨cut, filled⟩ := List.mem_filter.mp kept
  constructor
  · intro empty
    have none : piece = [] := String.ofList_eq_empty_iff.mp empty
    rw [none] at filled
    cases filled
  · rw [String.toList_ofList]
    exact dot_notMem_of_mem_pieces cut

/-- What stands on the two sides of a dot is read on its own. -/
theorem segments_append_dot (left right : String) :
    segments (left ++ "." ++ right) = segments left ++ segments right := by
  have written : (left ++ "." ++ right).toList = left.toList ++ '.' :: right.toList := by
    rw [String.toList_append, String.toList_append, List.append_assoc]
    rfl
  have cut : pieces (left.toList ++ '.' :: right.toList) =
      pieces left.toList ++ pieces right.toList := by
    simp only [pieces_eq_splitOn]
    exact List.splitOn_append_cons_self left.toList right.toList
  rw [segments, written, cut, List.filter_append, List.map_append]
  rfl

theorem segments_leading_dot (text : String) : segments ("." ++ text) = segments text := by
  have joined := segments_append_dot "" text
  rwa [String.empty_append] at joined

theorem segments_trailing_dot (text : String) : segments (text ++ ".") = segments text := by
  have joined := segments_append_dot text ""
  rw [String.append_empty] at joined
  exact joined.trans (List.append_nil _)

/-! ## Writing -/

theorem joinDots_eq_intercalate (names : List String) : joinDots names = ".".intercalate names := by
  rw [← String.toList_inj, String.toList_intercalate, joinDots, String.toList_ofList]
  rfl

/-- What is written for the segment at an index: the segment, after a dot unless it is the first. -/
def indexed (entry : String × Nat) : String :=
  if 0 < entry.2 then "." ++ entry.1 else entry.1

private theorem joinDots_cons (first : String) (rest : List String) (index : Nat) :
    joinDots (first :: rest) = first ++ String.join ((rest.zipIdx (index + 1)).map indexed) := by
  rw [joinDots_eq_intercalate]
  induction rest generalizing first index with
  | nil => simp
  | cons second rest restIH =>
      rw [String.intercalate_cons_cons, restIH second (index + 1), List.zipIdx_cons, List.map_cons,
        String.join_cons]
      simp [indexed, String.append_assoc]

private theorem joinDots_eq_join (names : List String) :
    joinDots names = String.join (names.zipIdx.map indexed) := by
  cases names with
  | nil => rfl
  | cons first rest =>
      rw [joinDots_cons first rest 0, List.zipIdx_cons, List.map_cons, String.join_cons]
      rfl

/-! ## Reading what was written -/

private theorem segments_joinDots (clean : ∀ segment ∈ names, Clean segment) :
    segments (joinDots names) = names := by
  by_cases none : names = []
  · subst none
    rfl
  have dotless : ∀ piece ∈ names.map String.toList, '.' ∉ piece := by
    intro piece member
    obtain ⟨segment, held, rfl⟩ := List.mem_map.mp member
    exact (clean segment held).2
  have filled : ∀ piece ∈ names.map String.toList, (!piece.isEmpty) = true := by
    intro piece member
    obtain ⟨segment, held, rfl⟩ := List.mem_map.mp member
    simpa using (clean segment held).1
  have cut : pieces (joinDots names).toList = names.map String.toList := by
    rw [joinDots, String.toList_ofList, pieces_eq_splitOn]
    exact List.splitOn_intercalate '.' dotless (by simpa using none)
  rw [segments, cut, List.filter_eq_self.mpr filled, List.map_map]
  simp [Function.comp_def]

/-- Writing loses nothing but segments that reading cannot give. -/
theorem segments_joinDots_iff :
    segments (joinDots names) = names ↔ ∀ segment ∈ names, Clean segment := by
  constructor
  · intro readBack segment member
    rw [← readBack] at member
    exact clean_of_mem_segments member
  · exact segments_joinDots

end Text

open Text

theorem QualifiedName.parse_render_iff {name : QualifiedName} :
    parse name.render = name ↔ ∀ segment ∈ name.segments, Clean segment := by
  constructor
  · intro readBack
    exact segments_joinDots_iff.mp (congrArg segments readBack)
  · intro clean
    exact congrArg mk (segments_joinDots clean)

theorem QualifiedName.parse_doubled_dot (left right : String) :
    parse (left ++ "." ++ "." ++ right) = parse (left ++ "." ++ right) := by
  rw [parse, parse, segments_append_dot (left ++ ".") right, segments_trailing_dot,
    segments_append_dot]

/-- Names are read back from their text exactly when their segments are clean, and reading gives
clean segments only. A dot between two texts joins what is read from them, so dots at the ends and
doubled dots do not count. Packages are read in the same way and written as the same text, be it
with a dot before every segment that is not the first or with dots between them. -/
theorem parse_inverts_render_on_clean :
    (∀ name : QualifiedName, .parse name.render = name ↔
      ∀ segment ∈ name.segments, Clean segment) ∧
    (∀ text : String, (∀ segment ∈ (QualifiedName.parse text).segments, Clean segment) ∧
      QualifiedName.parse (QualifiedName.parse text).render = .parse text) ∧
    (∀ left right : String,
      (QualifiedName.parse (left ++ "." ++ right)).segments =
        (QualifiedName.parse left).segments ++ (QualifiedName.parse right).segments ∧
      QualifiedName.parse ("." ++ left) = .parse left ∧
      QualifiedName.parse (left ++ ".") = .parse left ∧
      QualifiedName.parse (left ++ "." ++ "." ++ right) = .parse (left ++ "." ++ right)) ∧
    (∀ text : String, (Package.parse text).segments = (QualifiedName.parse text).segments) ∧
    (∀ name : QualifiedName, name.render = String.join (name.segments.zipIdx.map indexed)) ∧
    (∀ package : Package, package.render = ".".intercalate package.segments) ∧
    ∀ (package : Package) (name : QualifiedName), package.segments = name.segments →
      package.render = name.render := by
  refine ⟨fun name => QualifiedName.parse_render_iff, fun text => ?_, fun left right => ?_,
    fun text => rfl, fun name => joinDots_eq_join name.segments,
    fun package => joinDots_eq_intercalate package.segments, fun package name same => ?_⟩
  · have clean : ∀ segment ∈ (QualifiedName.parse text).segments, Clean segment :=
      fun segment member => clean_of_mem_segments member
    exact ⟨clean, QualifiedName.parse_render_iff.mpr clean⟩
  · exact ⟨segments_append_dot left right, congrArg QualifiedName.mk (segments_leading_dot left),
      congrArg QualifiedName.mk (segments_trailing_dot left),
      QualifiedName.parse_doubled_dot left right⟩
  · exact congrArg joinDots same

end SchemaScope
