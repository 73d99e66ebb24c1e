import SchemaScope.Literal.Decimal
import SchemaScope.Proofs.Literal.Reading

/-!
Blanks around a literal change nothing but the text that an error quotes.

A conversion ends in one of three ways, and which one it is depends on the text only through what is
left of it without the blanks around it. This does not depend on the reader, so what holds for one
conversion holds for all four of them.
-/

set_option autoImplicit false

namespace SchemaScope

open Text

variable {before after text : String}

private theorem Text.trim_eq_nil_iff {text : List Char} : trim text = [] ↔ AllBlank text := by
  constructor
  · intro none
    obtain ⟨before, after, whole, blankBefore, blankAfter⟩ := (isCore_trim text).between
    rw [none, List.append_nil] at whole
    rw [whole]
    exact List.forall_mem_append.mpr ⟨blankBefore, blankAfter⟩
  · intro blank
    rw [trim, trimStart_of_allBlank blank]
    rfl

private theorem Text.trim_toList_between (blankBefore : AllBlank before.toList)
    (blankAfter : AllBlank after.toList) (text : String) :
    trim (before ++ text ++ after).toList = trim text.toList := by
  rw [String.toList_append, String.toList_append, trim_between blankBefore blankAfter]

namespace Literal

/-! ## The three ways in which a conversion ends -/

private theorem mapError_eq_ok_iff {α ε δ : Type} {outcome : Except ε α} {explain : ε → δ}
    {value : α} :
    outcome.mapError explain = .ok value ↔ outcome = .ok value := by
  cases outcome <;> simp [Except.mapError]

private theorem mapError_eq_error_iff {α ε δ : Type} {outcome : Except ε α} {explain : ε → δ}
    {error : δ} :
    outcome.mapError explain = .error error ↔
      ∃ fault, outcome = .error fault ∧ explain fault = error := by
  cases outcome <;> simp [Except.mapError]

section Endings

variable {α : Type} {target : Target} {read : List Char → Except Fault α} {position : Position}

private theorem convert_of_filled (filled : trim text.toList ≠ []) :
    convert target read text position =
      (read (trim text.toList)).mapError (.invalid text target position) :=
  convert_of_ne_nil (isCore_trim text.toList) filled target read position

private theorem convert_of_allBlank (blank : AllBlank text.toList) :
    convert target read text position = .error (.empty target position) := by
  rw [convert, trim_eq_nil_iff.mpr blank]
  rfl

/-- A literal of blanks alone never gets to the reader. -/
theorem convert_eq_empty_iff :
    convert target read text position = .error (.empty target position) ↔
      AllBlank text.toList := by
  refine ⟨fun failed => ?_, convert_of_allBlank⟩
  by_contra filled
  rw [convert_of_filled (mt trim_eq_nil_iff.mp filled)] at failed
  obtain ⟨fault, _, invalid⟩ := mapError_eq_error_iff.mp failed
  cases invalid

theorem convert_eq_ok_iff {value : α} :
    convert target read text position = .ok value ↔
      trim text.toList ≠ [] ∧ read (trim text.toList) = .ok value := by
  by_cases none : trim text.toList = []
  · rw [convert_of_allBlank (trim_eq_nil_iff.mp none)]
    simp [none]
  · rw [convert_of_filled none, mapError_eq_ok_iff, and_iff_right none]

theorem convert_eq_invalid_iff {fault : Fault} :
    convert target read text position = .error (.invalid text target position fault) ↔
      trim text.toList ≠ [] ∧ read (trim text.toList) = .error fault := by
  by_cases none : trim text.toList = []
  · rw [convert_of_allBlank (trim_eq_nil_iff.mp none)]
    simp [none]
  · rw [convert_of_filled none, mapError_eq_error_iff, and_iff_right none]
    simp

private theorem convert_eq_error {error : ConversionError}
    (failed : convert target read text position = .error error) :
    error = .empty target position ∨ ∃ fault, error = .invalid text target position fault := by
  by_cases none : trim text.toList = []
  · rw [convert_of_allBlank (trim_eq_nil_iff.mp none)] at failed
    exact .inl (Except.error.inj failed).symm
  · rw [convert_of_filled none] at failed
    obtain ⟨fault, _, rfl⟩ := mapError_eq_error_iff.mp failed
    exact .inr ⟨fault, rfl⟩

end Endings

/-! ## A text with and without blanks around it -/

/-- What a conversion makes of a text between two others, compared with the text alone. -/
structure SameBetween {α : Type} (target : Target)
    (conversion : String → Position → Except ConversionError α) (before text after : String)
    (position : Position) : Prop where
  value : ∀ value, conversion (before ++ text ++ after) position = .ok value ↔
    conversion text position = .ok value
  empty : conversion (before ++ text ++ after) position = .error (.empty target position) ↔
    AllBlank text.toList
  invalid : ∀ fault, conversion (before ++ text ++ after) position =
      .error (.invalid (before ++ text ++ after) target position fault) ↔
    conversion text position = .error (.invalid text target position fault)
  errors : ∀ error, conversion (before ++ text ++ after) position = .error error →
    error.position = position ∧
      (error = .empty target position ∨
        ∃ fault, error = .invalid (before ++ text ++ after) target position fault)

/-- The reader sees only the core of a text, so it does not matter which reader it is. -/
theorem convert_sameBetween {α : Type} (blankBefore : AllBlank before.toList)
    (blankAfter : AllBlank after.toList) (target : Target) (read : List Char → Except Fault α)
    (text : String) (position : Position) :
    SameBetween target (convert target read) before text after position := by
  have trimmed := trim_toList_between blankBefore blankAfter text
  constructor
  case value =>
    intro value
    rw [convert_eq_ok_iff, convert_eq_ok_iff, trimmed]
  case empty =>
    rw [convert_eq_empty_iff, ← trim_eq_nil_iff, trimmed, trim_eq_nil_iff]
  case invalid =>
    intro fault
    rw [convert_eq_invalid_iff, convert_eq_invalid_iff, trimmed]
  case errors =>
    intro error failed
    obtain rfl | ⟨fault, rfl⟩ := convert_eq_error failed
    · exact ⟨rfl, .inl rfl⟩
    · exact ⟨rfl, .inr ⟨fault, rfl⟩⟩

/-- With blanks around it a text is converted to the same value, or fails for the same reason at the
same position. It counts as empty exactly when it has nothing but blanks. Any other error quotes the
text as it was written, with the blanks around it. -/
theorem conversions_ignore_blanks (blankBefore : AllBlank before.toList)
    (blankAfter : AllBlank after.toList) (text : String) (position : Position) :
    SameBetween .float floatValue before text after position ∧
      SameBetween .double doubleValue before text after position ∧
      SameBetween .long longValue before text after position ∧
      SameBetween .hex hexValue before text after position :=
  ⟨convert_sameBetween blankBefore blankAfter .float (readFloat .single) text position,
    convert_sameBetween blankBefore blankAfter .double (readFloat .double) text position,
    convert_sameBetween blankBefore blankAfter .long readLong text position,
    convert_sameBetween blankBefore blankAfter .hex readHex text position⟩

theorem conversions_ignore_blanks_padded :
    AllBlank "\t\u3000".toList ∧ AllBlank " \n".toList ∧
      SameBetween .float floatValue "\t\u3000" "-2e 3" " \n" ⟨3, 7⟩ ∧
      SameBetween .double doubleValue "\t\u3000" "-2e 3" " \n" ⟨3, 7⟩ ∧
      SameBetween .long longValue "\t\u3000" "-2e 3" " \n" ⟨3, 7⟩ ∧
      SameBetween .hex hexValue "\t\u3000" "-2e 3" " \n" ⟨3, 7⟩ :=
  ⟨by decide, by decide, conversions_ignore_blanks (by decide) (by decide) "-2e 3" ⟨3, 7⟩⟩

end Literal

end SchemaScope
