import SchemaScope.Proofs.Literal.Reading

/-!
Which texts are hexadecimal literals, what they stand for, and what is wrong with the others.
-/

set_option autoImplicit false

namespace SchemaScope.Literal

open Text

/-! ## Digits -/

/-- A character for a hexadecimal digit: its place in one of the two rows is the digit. -/
def HexDigit (char : Char) (digit : Nat) : Prop :=
  "0123456789abcdef".toList[digit]? = some char ∨ "0123456789ABCDEF".toList[digit]? = some char

instance (char : Char) (digit : Nat) : Decidable (HexDigit char digit) :=
  inferInstanceAs (Decidable (_ ∨ _))

section Digits

variable {char : Char} {digit : Nat}

private theorem HexDigit.of_rows {P : Char → Nat → Prop} (isDigit : HexDigit char digit)
    (lower : ∀ entry ∈ "0123456789abcdef".toList.zipIdx, P entry.1 entry.2)
    (upper : ∀ entry ∈ "0123456789ABCDEF".toList.zipIdx, P entry.1 entry.2) : P char digit := by
  rcases isDigit with inLower | inUpper
  · exact lower (char, digit) (List.mem_zipIdx_iff_getElem?.mpr inLower)
  · exact upper (char, digit) (List.mem_zipIdx_iff_getElem?.mpr inUpper)

private theorem HexDigit.hexDigit?_eq (isDigit : HexDigit char digit) :
    hexDigit? char = some digit :=
  isDigit.of_rows (P := fun char digit => hexDigit? char = some digit) (by decide) (by decide)

theorem HexDigit.not_blank (isDigit : HexDigit char digit) : isBlank char = false :=
  isDigit.of_rows (P := fun char _ => isBlank char = false) (by decide) (by decide)

private theorem ascii_of_hexDigit? (read : hexDigit? char = some digit) : char.toNat < 128 := by
  have ascii : ∀ high : Char, high.toNat < 128 → char ≤ high → char.toNat < 128 :=
    fun high bound below => Nat.lt_of_le_of_lt (UInt32.le_iff_toNat_le.mp below) bound
  unfold hexDigit? at read
  split at read
  next decimal => exact ascii '9' (by decide) decimal.2
  next =>
      split at read
      next lower => exact ascii 'f' (by decide) lower.2
      next =>
          split at read
          next upper => exact ascii 'F' (by decide) upper.2
          next => cases read

theorem hexDigit?_eq_some_iff : hexDigit? char = some digit ↔ HexDigit char digit := by
  constructor
  · intro read
    exact of_code_table (P := fun char => ∀ digit ∈ hexDigit? char, HexDigit char digit)
      (by decide +kernel) (ascii_of_hexDigit? read) digit read
  · exact HexDigit.hexDigit?_eq

private theorem HexDigit.of_toLower (isDigit : HexDigit char.toLower digit) :
    HexDigit char digit := by
  rw [← hexDigit?_eq_some_iff] at isDigit ⊢
  by_cases upper : char.toNat < 91
  · exact of_code_table
      (P := fun char => ∀ digit ∈ hexDigit? char.toLower, hexDigit? char = some digit)
      (by decide +kernel) upper digit isDigit
  · have same : char.toLower = char := by
      refine dif_neg fun capital => upper ?_
      exact Nat.lt_succ_of_le (UInt32.le_iff_toNat_le.mp capital.2)
    rwa [same] at isDigit

end Digits

/-! ## The form of a literal -/

abbrev Magnitude : List Char → Nat → Prop := Stands 16 HexDigit

private theorem magnitude_iff {digits : List Char} {magnitude : Nat} :
    Magnitude digits magnitude ↔
      digits ≠ [] ∧ digits.all isHexDigit = true ∧ hexNumber digits = magnitude := by
  rw [List.all_eq_true]
  exact stands_iff fun _ _ => hexDigit?_eq_some_iff

private theorem magnitude_toDigits (number : Nat) : Magnitude (Nat.toDigits 16 number) number :=
  stands_toDigits (by decide) (by decide) number

/-- An optional minus, the mark `0x` or `0X`, and what comes after it. -/
def HexForm (literal : List Char) (negative : Bool) (digits : List Char) : Prop :=
  ∃ mark, (mark = 'x' ∨ mark = 'X') ∧
    literal = (if negative then ['-'] else []) ++ '0' :: mark :: digits

private theorem splitMinus_append (literal : List Char) :
    literal = (if (splitMinus literal).1 then ['-'] else []) ++ (splitMinus literal).2 := by
  unfold splitMinus
  split
  next => rfl
  next => rfl

private theorem hexDigits?_eq_some {unsigned digits : List Char}
    (read : hexDigits? unsigned = some digits) :
    ∃ mark, (mark = 'x' ∨ mark = 'X') ∧ unsigned = '0' :: mark :: digits := by
  unfold hexDigits? at read
  split at read
  next => exact ⟨'x', .inl rfl, by rw [Option.some.inj read]⟩
  next => exact ⟨'X', .inr rfl, by rw [Option.some.inj read]⟩
  next => cases read

theorem hexForm_iff {literal digits : List Char} {negative : Bool} :
    HexForm literal negative digits ↔
      (splitMinus literal).1 = negative ∧ hexDigits? (splitMinus literal).2 = some digits := by
  constructor
  · rintro ⟨mark, rfl | rfl, rfl⟩
    · cases negative <;> exact ⟨rfl, rfl⟩
    · cases negative <;> exact ⟨rfl, rfl⟩
  · rintro ⟨rfl, read⟩
    obtain ⟨mark, isMark, unsigned⟩ := hexDigits?_eq_some read
    exact ⟨mark, isMark, unsigned ▸ splitMinus_append literal⟩

private theorem readHex_of_form {literal digits : List Char} {negative : Bool}
    (form : HexForm literal negative digits) :
    readHex literal =
      if digits.isEmpty || !digits.all isHexDigit then .error .missingHexDigits
      else if UInt64.size ≤ hexNumber digits then .error .tooLarge
      else if hexNumber digits ≤ largestMagnitude negative then
        .ok (signed negative (hexNumber digits))
      else .error .outsideSignedRange := by
  obtain ⟨rfl, read⟩ := hexForm_iff.mp form
  unfold readHex
  simp only [read]

private theorem readHex_of_no_form {literal : List Char}
    (formless : ∀ negative digits, ¬ HexForm literal negative digits) :
    readHex literal = .error .missingHexMark := by
  have unread : hexDigits? (splitMinus literal).2 = none := by
    rw [Option.eq_none_iff_forall_ne_some]
    exact fun digits read => formless _ digits (hexForm_iff.mpr ⟨rfl, read⟩)
  unfold readHex
  simp only [unread]

/-! ## What becomes of a text -/

/-- What a text with a given core is converted to, and why it is not. -/
inductive HexOutcome (text : String) (position : Position) (core : List Char) :
    Except ConversionError Int → Prop where
  | empty : core = [] → HexOutcome text position core (.error (.empty .hex position))
  | missingMark :
      core ≠ [] → (∀ negative digits, ¬ HexForm core negative digits) →
      HexOutcome text position core (.error (.invalid text .hex position .missingHexMark))
  | missingDigits {negative digits} :
      HexForm core negative digits → (∀ magnitude, ¬ Magnitude digits magnitude) →
      HexOutcome text position core (.error (.invalid text .hex position .missingHexDigits))
  | tooLarge {negative digits magnitude} :
      HexForm core negative digits → Magnitude digits magnitude → 2 ^ 64 ≤ magnitude →
      HexOutcome text position core (.error (.invalid text .hex position .tooLarge))
  | outOfRange {negative digits magnitude} :
      HexForm core negative digits → Magnitude digits magnitude → magnitude < 2 ^ 64 →
      (if negative then 2 ^ 63 else 2 ^ 63 - 1) < magnitude →
      HexOutcome text position core (.error (.invalid text .hex position .outsideSignedRange))
  | value {negative digits magnitude} :
      HexForm core negative digits → Magnitude digits magnitude →
      magnitude ≤ (if negative then 2 ^ 63 else 2 ^ 63 - 1) →
      HexOutcome text position core (.ok (if negative then -magnitude else magnitude))

private theorem exists_hexOutcome (text : String) (position : Position) (core : List Char) :
    ∃ result, HexOutcome text position core result := by
  by_cases none : core = []
  · exact ⟨_, .empty none⟩
  by_cases formed : ∃ negative digits, HexForm core negative digits
  · obtain ⟨negative, digits, form⟩ := formed
    by_cases read : ∃ magnitude, Magnitude digits magnitude
    · obtain ⟨magnitude, stands⟩ := read
      by_cases large : 2 ^ 64 ≤ magnitude
      · exact ⟨_, .tooLarge form stands large⟩
      by_cases fits : magnitude ≤ (if negative then 2 ^ 63 else 2 ^ 63 - 1)
      · exact ⟨_, .value form stands fits⟩
      · exact ⟨_, .outOfRange form stands (Nat.lt_of_not_le large) (Nat.lt_of_not_le fits)⟩
    · exact ⟨_, .missingDigits form (not_exists.mp read)⟩
  · have formless : ∀ negative digits, ¬ HexForm core negative digits :=
      fun negative digits form => formed ⟨negative, digits, form⟩
    exact ⟨_, .missingMark none formless⟩

theorem HexForm.ne_nil {literal digits : List Char} {negative : Bool}
    (form : HexForm literal negative digits) : literal ≠ [] := by
  obtain ⟨mark, _, rfl⟩ := form
  simp

section Outcome

variable {text : String} {position : Position} {core digits : List Char} {negative : Bool}
  {magnitude : Nat}

private theorem readHex_of_magnitude (form : HexForm core negative digits)
    (stands : Magnitude digits magnitude) :
    readHex core =
      if 2 ^ 64 ≤ magnitude then .error .tooLarge
      else if magnitude ≤ (if negative then 2 ^ 63 else 2 ^ 63 - 1) then
        .ok (if negative then -magnitude else magnitude)
      else .error .outsideSignedRange := by
  obtain ⟨filled, hexadecimal, rfl⟩ := magnitude_iff.mp stands
  have wellFormed : ¬ (digits.isEmpty || !digits.all isHexDigit) = true := by
    simp [filled, hexadecimal]
  rw [readHex_of_form form, if_neg wellFormed]
  rfl

private theorem HexOutcome.hexValue_eq {result : Except ConversionError Int}
    (isCore : IsCore text.toList core) (outcome : HexOutcome text position core result) :
    hexValue text position = result := by
  cases outcome with
  | empty none =>
      subst none
      rw [hexValue, convert_of_isCore isCore]
      rfl
  | missingMark filled formless =>
      rw [hexValue, convert_of_ne_nil isCore filled, readHex_of_no_form formless]
      rfl
  | @missingDigits negative digits form unread =>
      have malformed : (digits.isEmpty || !digits.all isHexDigit) = true := by
        by_contra wellFormed
        rw [Bool.or_eq_true, not_or, List.isEmpty_iff, Bool.not_eq_true', Bool.not_eq_false]
          at wellFormed
        exact unread _ (magnitude_iff.mpr ⟨wellFormed.1, wellFormed.2, rfl⟩)
      rw [hexValue, convert_of_ne_nil isCore form.ne_nil, readHex_of_form form, if_pos malformed]
      rfl
  | tooLarge form stands large =>
      rw [hexValue, convert_of_ne_nil isCore form.ne_nil,
        readHex_of_magnitude form stands, if_pos large]
      rfl
  | outOfRange form stands small outside =>
      rw [hexValue, convert_of_ne_nil isCore form.ne_nil, readHex_of_magnitude form stands,
        if_neg (Nat.not_le.mpr small), if_neg (Nat.not_le.mpr outside)]
      rfl
  | @value negative digits magnitude form stands fits =>
      have small : ¬ 2 ^ 64 ≤ magnitude := by
        split at fits <;> omega
      rw [hexValue, convert_of_ne_nil isCore form.ne_nil,
        readHex_of_magnitude form stands, if_neg small, if_pos fits]
      rfl

/-- Some outcome always applies and a conversion has only one, so the outcomes describe it
completely. -/
theorem hexValue_eq_iff {result : Except ConversionError Int} (isCore : IsCore text.toList core) :
    hexValue text position = result ↔ HexOutcome text position core result :=
  eq_iff_of_outcome (exists_hexOutcome text position core) (HexOutcome.hexValue_eq isCore)

end Outcome

/-! ## Spellings of a number -/

/-- A hexadecimal spelling of a number: its digits, each in either case, after any zeros, with
blanks around the literal. -/
def SpellsHex (text : String) (number : Int) : Prop :=
  ∃ before literal after negative digits zeros,
    text.toList = before ++ literal ++ after ∧ AllBlank before ∧ AllBlank after ∧
    HexForm literal negative digits ∧
    digits.map Char.toLower = List.replicate zeros '0' ++ Nat.toDigits 16 number.natAbs ∧
    number = if negative then -(number.natAbs : Int) else number.natAbs

/-- Neither the mark nor a digit is blank, so the blanks end where the literal starts. -/
theorem HexForm.isCore {literal digits before after : List Char} {negative : Bool}
    {magnitude : Nat} (form : HexForm literal negative digits)
    (stands : Magnitude digits magnitude) (blankBefore : AllBlank before)
    (blankAfter : AllBlank after) : IsCore (before ++ literal ++ after) literal := by
  obtain ⟨mark, isMark, rfl⟩ := form
  have digitsVisible := stands.not_blank fun _ _ => HexDigit.not_blank
  refine isCore_of_visible blankBefore blankAfter ?_
  rw [List.forall_mem_append, List.forall_mem_cons, List.forall_mem_cons]
  refine ⟨?_, by decide, ?_, digitsVisible⟩
  · cases negative with
    | true => exact List.forall_mem_singleton.mpr (by decide)
    | false => exact List.forall_mem_nil _
  · rcases isMark with rfl | rfl
    · decide
    · decide

theorem SpellsHex.hexValue_eq {text : String} {number : Int64}
    (spells : SpellsHex text number.toInt) (position : Position) :
    hexValue text position = .ok number.toInt := by
  obtain ⟨before, literal, after, negative, digits, zeros, written, blankBefore, blankAfter, form,
    lower, sign⟩ := spells
  have zero : HexDigit '0' 0 := .inl rfl
  have stands : Magnitude digits number.toInt.natAbs :=
    Stands.of_map (fun _ _ => HexDigit.of_toLower)
      (lower ▸ (magnitude_toDigits number.toInt.natAbs).zeros_append zero zeros)
  have isCore : IsCore text.toList literal := written ▸ form.isCore stands blankBefore blankAfter
  have outcome : HexOutcome text position literal (.ok _) :=
    .value form stands (natAbs_toInt_le sign)
  rw [outcome.hexValue_eq isCore, ← sign]

/-- The conversion of a text goes by its one core. In order, the core is empty, has no mark, has no
digits after it or something else among them, has a magnitude over 64 bits, or one that no signed
64-bit number of its sign has; otherwise it is converted to that number. So every spelling of a
number is converted back to it. -/
theorem hexValue_exact (text : String) (position : Position) :
    (∃ core, (∀ other, IsCore text.toList other ↔ other = core) ∧
      ∀ result, hexValue text position = result ↔ HexOutcome text position core result) ∧
    ∀ number : Int64, SpellsHex text number.toInt → hexValue text position = .ok number.toInt := by
  refine ⟨⟨trim text.toList, fun other => ?_, fun result => ?_⟩, fun number spells => ?_⟩
  · rw [isCore_iff, eq_comm]
  · exact hexValue_eq_iff (isCore_trim text.toList)
  · exact spells.hexValue_eq position

end SchemaScope.Literal
