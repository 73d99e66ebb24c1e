import Mathlib.Data.List.Basic
import Mathlib.Data.List.TakeWhile
import SchemaScope.Text

/-!
What is left of a text without the blanks around it.

A text is its core between two runs of blanks, where the core neither begins nor ends with a blank.
There is only one way to cut a text like this, and trimming finds it.
-/

set_option autoImplicit false

namespace SchemaScope.Text

variable {text core before after : List Char}

def AllBlank (text : List Char) : Prop :=
  ∀ char ∈ text, isBlank char = true

instance (text : List Char) : Decidable (AllBlank text) :=
  decidable_of_iff (text.all isBlank = true) List.all_eq_true

/-- What a text is without the blanks around it. -/
structure IsCore (text core : List Char) : Prop where
  between : ∃ before after, text = before ++ core ++ after ∧ AllBlank before ∧ AllBlank after
  head : ∀ char ∈ core.head?, isBlank char = false
  last : ∀ char ∈ core.getLast?, isBlank char = false

private theorem trimStart_append (blank : AllBlank before) (rest : List Char) :
    trimStart (before ++ rest) = trimStart rest :=
  List.dropWhile_append_of_pos blank

private theorem trimEnd_append (blank : AllBlank after) (rest : List Char) :
    trimEnd (rest ++ after) = trimEnd rest := by
  have reversed : AllBlank after.reverse :=
    fun char member => blank char (List.mem_reverse.mp member)
  rw [trimEnd, List.reverse_append, trimStart_append reversed, trimEnd]

theorem trimStart_of_allBlank (blank : AllBlank text) : trimStart text = [] :=
  List.dropWhile_eq_nil_iff.mpr blank

/-- Blanks around a text do not count. -/
theorem trim_between (blankBefore : AllBlank before) (blankAfter : AllBlank after)
    (core : List Char) : trim (before ++ core ++ after) = trim core := by
  rw [List.append_assoc, trim, trimStart_append blankBefore, trim]
  by_cases none : trimStart core = []
  · have blankCore : AllBlank core := List.dropWhile_eq_nil_iff.mp none
    rw [trimStart_append blankCore, trimStart_of_allBlank blankAfter, none]
  · have kept : trimStart (core ++ after) = trimStart core ++ after := by
      rw [trimStart, List.dropWhile_append]
      exact if_neg (mt List.isEmpty_iff.mp none)
    rw [kept, trimEnd_append blankAfter]

private theorem trimStart_eq_self (head : ∀ char ∈ text.head?, isBlank char = false) :
    trimStart text = text := by
  cases text with
  | nil => rfl
  | cons first rest =>
      have visible : isBlank first = false := head first rfl
      rw [trimStart, List.dropWhile_cons, visible]
      rfl

/-- Trimming finds the core of a text, so there is only one. -/
theorem IsCore.trim_eq (isCore : IsCore text core) : trim text = core := by
  obtain ⟨before, after, rfl, blankBefore, blankAfter⟩ := isCore.between
  have last : ∀ char ∈ core.reverse.head?, isBlank char = false := by
    rw [List.head?_reverse]
    exact isCore.last
  rw [trim_between blankBefore blankAfter, trim, trimStart_eq_self isCore.head, trimEnd,
    trimStart_eq_self last, List.reverse_reverse]

theorem head_dropWhile (skip : Char → Bool) (text : List Char) :
    ∀ char ∈ (text.dropWhile skip).head?, skip char = false := by
  intro char first
  have stopped := List.head?_dropWhile_not skip text
  have same : (text.dropWhile skip).head? = some char := first
  rwa [same] at stopped

private theorem head_trimStart (text : List Char) :
    ∀ char ∈ (trimStart text).head?, isBlank char = false :=
  head_dropWhile isBlank text

private theorem exists_trimStart (text : List Char) :
    ∃ before, text = before ++ trimStart text ∧ AllBlank before :=
  ⟨text.takeWhile isBlank, List.takeWhile_append_dropWhile.symm,
    fun _ member => List.mem_takeWhile_imp member⟩

private theorem exists_trimEnd (text : List Char) :
    ∃ after, text = trimEnd text ++ after ∧ AllBlank after := by
  obtain ⟨before, split, blank⟩ := exists_trimStart text.reverse
  refine ⟨before.reverse, ?_, fun char member => blank char (List.mem_reverse.mp member)⟩
  rw [trimEnd, ← List.reverse_append, ← split, List.reverse_reverse]

/-- What is dropped at the end does not change how the rest begins. -/
theorem isCore_trim (text : List Char) : IsCore text (trim text) := by
  obtain ⟨before, front, blankBefore⟩ := exists_trimStart text
  obtain ⟨after, back, blankAfter⟩ := exists_trimEnd (trimStart text)
  constructor
  case between =>
    refine ⟨before, after, ?_, blankBefore, blankAfter⟩
    rw [List.append_assoc, trim, ← back]
    exact front
  case head =>
    intro char first
    have kept : char ∈ (trimStart text).head? := by
      rw [back]
      exact List.mem_head?_append_of_mem_head? first
    exact head_trimStart text char kept
  case last =>
    intro char final
    rw [trim, trimEnd, List.getLast?_reverse] at final
    exact head_trimStart _ char final

theorem isCore_iff : IsCore text core ↔ trim text = core :=
  ⟨IsCore.trim_eq, fun trimmed => trimmed ▸ isCore_trim text⟩

theorem isCore_of_visible (blankBefore : AllBlank before) (blankAfter : AllBlank after)
    (visible : ∀ char ∈ core, isBlank char = false) : IsCore (before ++ core ++ after) core where
  between := ⟨before, after, rfl, blankBefore, blankAfter⟩
  head := fun char first => visible char (List.mem_of_mem_head? first)
  last := fun char final => visible char (List.mem_of_mem_getLast? final)

end SchemaScope.Text
