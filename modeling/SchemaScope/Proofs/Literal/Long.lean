import SchemaScope.Proofs.Literal.Reading

/-!
Which texts are decimal literals of signed 64-bit numbers, what they stand for, and what is wrong
with the others.

Digits are read from the left, and what they stand for so far is compared with the limit after each
of them. A further digit never makes a number smaller. So the limit is passed within the first run
of digits exactly when the number of the whole run is over it, whatever comes after the run.
-/

set_option autoImplicit false

namespace SchemaScope.Literal

open Text

/-! ## Digits -/

/-- A character for a decimal digit: its place in the row is the digit. -/
def DecimalDigit (char : Char) (digit : Nat) : Prop :=
  "0123456789".toList[digit]? = some char

instance (char : Char) (digit : Nat) : Decidable (DecimalDigit char digit) :=
  inferInstanceAs (Decidable (_ = _))

section Digits

variable {char : Char} {digit : Nat}

private theorem DecimalDigit.of_row {P : Char → Nat → Prop} (isDigit : DecimalDigit char digit)
    (row : ∀ entry ∈ "0123456789".toList.zipIdx, P entry.1 entry.2) : P char digit :=
  row (char, digit) (List.mem_zipIdx_iff_getElem?.mpr isDigit)

private theorem DecimalDigit.decimalDigit?_eq (isDigit : DecimalDigit char digit) :
    decimalDigit? char = some digit :=
  isDigit.of_row (P := fun char digit => decimalDigit? char = some digit) (by decide)

theorem DecimalDigit.not_blank (isDigit : DecimalDigit char digit) : isBlank char = false :=
  isDigit.of_row (P := fun char _ => isBlank char = false) (by decide)

theorem decimalDigit?_eq_some_iff : decimalDigit? char = some digit ↔ DecimalDigit char digit := by
  constructor
  · intro read
    have small : char.toNat < 58 := by
      unfold decimalDigit? at read
      split at read
      next range => exact Nat.lt_succ_of_le (UInt32.le_iff_toNat_le.mp range.2)
      next => cases read
    exact of_code_table (P := fun char => ∀ digit ∈ decimalDigit? char, DecimalDigit char digit)
      (by decide +kernel) small digit read
  · exact DecimalDigit.decimalDigit?_eq

private theorem isDecimalDigit_iff :
    isDecimalDigit char = true ↔ ∃ digit, DecimalDigit char digit := by
  simp only [isDecimalDigit, Option.isSome_iff_exists, decimalDigit?_eq_some_iff]

end Digits

abbrev DecimalNumber : List Char → Nat → Prop := Stands 10 DecimalDigit

private theorem exists_decimalNumber {digits : List Char} (filled : digits ≠ [])
    (run : ∀ char ∈ digits, ∃ digit, DecimalDigit char digit) :
    ∃ number, DecimalNumber digits number := by
  refine ⟨_, stands_numberOf (fun _ _ => decimalDigit?_eq_some_iff) filled ?_⟩
  exact fun char member => isDecimalDigit_iff.mpr (run char member)

theorem DecimalNumber.unique {digits : List Char} {number other : Nat}
    (stands : DecimalNumber digits number) (otherStands : DecimalNumber digits other) :
    other = number := by
  have agree : ∀ char digit, decimalDigit? char = some digit ↔ DecimalDigit char digit :=
    fun _ _ => decimalDigit?_eq_some_iff
  rw [← (stands.numberOf_eq agree).2.2, ← (otherStands.numberOf_eq agree).2.2]

/-! ## The form of a literal -/

/-- A literal with one leading sign, if it has any, split off. -/
inductive SignSplit : List Char → Bool → List Char → Prop where
  | minus {rest} : SignSplit ('-' :: rest) true rest
  | plus {rest} : SignSplit ('+' :: rest) false rest
  | unsigned {literal} :
      (∀ char ∈ literal.head?, char ≠ '-' ∧ char ≠ '+') → SignSplit literal false literal

/-- A second sign is left to the digits, where it is a fault. -/
theorem signSplit_iff {literal rest : List Char} {negative : Bool} :
    SignSplit literal negative rest ↔ splitSign literal = (negative, rest) := by
  constructor
  · intro split
    cases split with
    | minus => rfl
    | plus => rfl
    | unsigned noSign =>
        unfold splitSign
        split
        next => exact absurd rfl (noSign '-' rfl).1
        next => exact absurd rfl (noSign '+' rfl).2
        next => rfl
  · intro read
    unfold splitSign at read
    split at read
    next =>
        cases read
        exact .minus
    next =>
        cases read
        exact .plus
    next noMinus noPlus =>
        cases read
        refine .unsigned fun char first => ?_
        obtain ⟨tail, rfl⟩ := List.head?_eq_some_iff.mp first
        refine ⟨?_, ?_⟩
        · rintro rfl
          exact noMinus tail rfl
        · rintro rfl
          exact noPlus tail rfl

theorem SignSplit.ne_nil {literal rest : List Char} {negative : Bool}
    (split : SignSplit literal negative rest) (filled : rest ≠ []) : literal ≠ [] := by
  cases split with
  | minus => exact List.cons_ne_nil _ _
  | plus => exact List.cons_ne_nil _ _
  | unsigned => exact filled

/-- An optional sign, the longest run of digits after it, and what comes after the run. -/
structure LongForm (literal : List Char) (negative : Bool) (digits rest : List Char) : Prop where
  sign : SignSplit literal negative (digits ++ rest)
  run : ∀ char ∈ digits, ∃ digit, DecimalDigit char digit
  longest : ∀ char ∈ rest.head?, ∀ digit, ¬ DecimalDigit char digit

private theorem exists_longForm (literal : List Char) :
    ∃ negative digits rest, LongForm literal negative digits rest := by
  obtain ⟨⟨negative, unsigned⟩, read⟩ : ∃ split, splitSign literal = split := ⟨_, rfl⟩
  refine ⟨negative, unsigned.takeWhile isDecimalDigit, unsigned.dropWhile isDecimalDigit, ?_⟩
  constructor
  case sign =>
    rw [List.takeWhile_append_dropWhile]
    exact signSplit_iff.mpr read
  case run =>
    intro char member
    exact isDecimalDigit_iff.mp (List.mem_takeWhile_imp member)
  case longest =>
    intro char first digit isDigit
    have stopped : isDecimalDigit char = false := head_dropWhile isDecimalDigit unsigned char first
    exact Bool.false_ne_true (stopped.symm.trans (isDecimalDigit_iff.mpr ⟨digit, isDigit⟩))

/-! ## Digits read from the left -/

private theorem readDigits_cons {char : Char} {digit : Nat} (isDigit : DecimalDigit char digit)
    (negative : Bool) (total : Nat) (rest : List Char) :
    readDigits negative total (char :: rest) =
      if total * 10 + digit ≤ largestMagnitude negative then
        readDigits negative (total * 10 + digit) rest
      else .error (overflowFault negative) := by
  rw [readDigits, isDigit.decimalDigit?_eq]

private theorem readDigits_of_longest {rest : List Char}
    (longest : ∀ char ∈ rest.head?, ∀ digit, ¬ DecimalDigit char digit) (filled : rest ≠ [])
    (negative : Bool) (total : Nat) :
    readDigits negative total rest = .error .invalidDigit := by
  cases rest with
  | nil => exact absurd rfl filled
  | cons char tail =>
      have unread : decimalDigit? char = none := by
        rw [Option.eq_none_iff_forall_ne_some]
        exact fun digit read => longest char rfl digit (decimalDigit?_eq_some_iff.mp read)
      rw [readDigits, unread]

/-- After a row of digits the total is the number that they stand for, unless it passed the
limit. -/
theorem Stands.readDigits_append {digits : List Char} {number : Nat}
    (stands : DecimalNumber digits number) (negative : Bool) (rest : List Char) :
    readDigits negative 0 (digits ++ rest) =
      if number ≤ largestMagnitude negative then readDigits negative number rest
      else .error (overflowFault negative) := by
  induction stands generalizing rest with
  | first isDigit =>
      rw [List.singleton_append, readDigits_cons isDigit, Nat.zero_mul, Nat.zero_add]
  | @next chars number char digit _ isDigit earlierIH =>
      rw [List.append_assoc, List.singleton_append, earlierIH]
      by_cases within : number ≤ largestMagnitude negative
      · rw [if_pos within, readDigits_cons isDigit]
      · have beyond : ¬ number * 10 + digit ≤ largestMagnitude negative := by omega
        rw [if_neg within, if_neg beyond]

section Reading

variable {literal digits rest : List Char} {negative : Bool} {number : Nat}

private theorem readLong_of_signSplit (sign : SignSplit literal negative rest)
    (filled : rest ≠ []) :
    readLong literal = (readDigits negative 0 rest).map (signed negative) := by
  unfold readLong
  rw [signSplit_iff.mp sign]
  cases rest with
  | nil => exact absurd rfl filled
  | cons char tail => rfl

theorem LongForm.ne_nil (form : LongForm literal negative digits rest)
    (stands : DecimalNumber digits number) : literal ≠ [] :=
  form.sign.ne_nil (List.append_ne_nil_of_left_ne_nil stands.ne_nil rest)

private theorem LongForm.readLong_of_number (form : LongForm literal negative digits rest)
    (stands : DecimalNumber digits number) :
    readLong literal =
      if number ≤ (if negative then 2 ^ 63 else 2 ^ 63 - 1) then
        if rest = [] then .ok (if negative then -number else number) else .error .invalidDigit
      else .error (overflowFault negative) := by
  have filled : digits ++ rest ≠ [] := List.append_ne_nil_of_left_ne_nil stands.ne_nil rest
  have limit : largestMagnitude negative = if negative then 2 ^ 63 else 2 ^ 63 - 1 := rfl
  rw [readLong_of_signSplit form.sign filled, stands.readDigits_append, limit]
  by_cases within : number ≤ (if negative then 2 ^ 63 else 2 ^ 63 - 1)
  · rw [if_pos within, if_pos within]
    by_cases whole : rest = []
    · subst whole
      rw [if_pos rfl]
      rfl
    · rw [if_neg whole, readDigits_of_longest form.longest whole]
      rfl
  · rw [if_neg within, if_neg within]
    rfl

private theorem LongForm.readLong_of_exceeds (form : LongForm literal negative digits rest)
    (stands : DecimalNumber digits number)
    (exceeds : (if negative then 2 ^ 63 else 2 ^ 63 - 1) < number) :
    readLong literal = .error (overflowFault negative) := by
  rw [form.readLong_of_number stands, if_neg (Nat.not_le.mpr exceeds)]

private theorem LongForm.readLong_of_nil (form : LongForm literal negative [] rest) :
    readLong literal = .error .invalidDigit := by
  by_cases signOnly : rest = []
  · subst signOnly
    unfold readLong
    rw [signSplit_iff.mp form.sign]
    rfl
  · rw [readLong_of_signSplit form.sign signOnly, List.nil_append,
      readDigits_of_longest form.longest signOnly]
    rfl

end Reading

/-! ## What becomes of a text -/

/-- What a text with a given core is converted to, and why it is not. -/
inductive LongOutcome (text : String) (position : Position) (core : List Char) :
    Except ConversionError Int → Prop where
  | empty : core = [] → LongOutcome text position core (.error (.empty .long position))
  | tooLarge {digits rest number} :
      LongForm core false digits rest → DecimalNumber digits number → 2 ^ 63 - 1 < number →
      LongOutcome text position core (.error (.invalid text .long position .tooLarge))
  | tooSmall {digits rest number} :
      LongForm core true digits rest → DecimalNumber digits number → 2 ^ 63 < number →
      LongOutcome text position core (.error (.invalid text .long position .tooSmall))
  | value {negative digits number} :
      LongForm core negative digits [] → DecimalNumber digits number →
      number ≤ (if negative then 2 ^ 63 else 2 ^ 63 - 1) →
      LongOutcome text position core (.ok (if negative then -number else number))
  | invalidDigit {negative digits rest} :
      core ≠ [] → LongForm core negative digits rest → digits = [] ∨ rest ≠ [] →
      (∀ number, DecimalNumber digits number →
        number ≤ (if negative then 2 ^ 63 else 2 ^ 63 - 1)) →
      LongOutcome text position core (.error (.invalid text .long position .invalidDigit))

private theorem exists_longOutcome (text : String) (position : Position) (core : List Char) :
    ∃ result, LongOutcome text position core result := by
  by_cases none : core = []
  · exact ⟨_, .empty none⟩
  obtain ⟨negative, digits, rest, form⟩ := exists_longForm core
  by_cases digitless : digits = []
  · refine ⟨_, .invalidDigit none form (.inl digitless) fun number stands => ?_⟩
    exact absurd digitless stands.ne_nil
  obtain ⟨number, stands⟩ := exists_decimalNumber digitless form.run
  by_cases fits : number ≤ (if negative then 2 ^ 63 else 2 ^ 63 - 1)
  · by_cases whole : rest = []
    · subst whole
      exact ⟨_, .value form stands fits⟩
    · refine ⟨_, .invalidDigit none form (.inr whole) fun other otherStands => ?_⟩
      rwa [DecimalNumber.unique stands otherStands]
  · have exceeds := Nat.lt_of_not_le fits
    cases negative with
    | true => exact ⟨_, .tooSmall form stands exceeds⟩
    | false => exact ⟨_, .tooLarge form stands exceeds⟩

section Outcome

variable {text : String} {position : Position} {core : List Char}
  {result : Except ConversionError Int}

private theorem LongOutcome.longValue_eq (isCore : IsCore text.toList core)
    (outcome : LongOutcome text position core result) : longValue text position = result := by
  cases outcome with
  | empty none =>
      subst none
      rw [longValue, convert_of_isCore isCore]
      rfl
  | tooLarge form stands large =>
      rw [longValue, convert_of_ne_nil isCore (form.ne_nil stands),
        form.readLong_of_exceeds stands large]
      rfl
  | tooSmall form stands small =>
      rw [longValue, convert_of_ne_nil isCore (form.ne_nil stands),
        form.readLong_of_exceeds stands small]
      rfl
  | value form stands fits =>
      rw [longValue, convert_of_ne_nil isCore (form.ne_nil stands),
        form.readLong_of_number stands, if_pos fits, if_pos rfl]
      rfl
  | @invalidDigit negative digits rest filled form incomplete fits =>
      rw [longValue, convert_of_ne_nil isCore filled]
      by_cases digitless : digits = []
      · subst digitless
        rw [form.readLong_of_nil]
        rfl
      · obtain ⟨number, stands⟩ := exists_decimalNumber digitless form.run
        have further : rest ≠ [] := incomplete.resolve_left digitless
        rw [form.readLong_of_number stands, if_pos (fits number stands), if_neg further]
        rfl

/-- The limit is checked digit by digit, but the outcome can be said of the whole run of digits. -/
theorem longValue_eq_iff (isCore : IsCore text.toList core) :
    longValue text position = result ↔ LongOutcome text position core result :=
  eq_iff_of_outcome (exists_longOutcome text position core) (LongOutcome.longValue_eq isCore)

end Outcome

/-! ## Spellings of a number -/

/-- A decimal spelling of a number: its sign, of which a plus may be left out, any zeros and its
digits, with blanks around the literal. Zero takes either sign. -/
def SpellsLong (text : String) (number : Int) : Prop :=
  ∃ before literal after negative zeros,
    text.toList = before ++ literal ++ after ∧ AllBlank before ∧ AllBlank after ∧
    SignSplit literal negative (List.replicate zeros '0' ++ Nat.toDigits 10 number.natAbs) ∧
    number = if negative then -(number.natAbs : Int) else number.natAbs

theorem SignSplit.isCore {literal digits before after : List Char} {negative : Bool} {number : Nat}
    (split : SignSplit literal negative digits) (stands : DecimalNumber digits number)
    (blankBefore : AllBlank before) (blankAfter : AllBlank after) :
    IsCore (before ++ literal ++ after) literal := by
  have digitsVisible := stands.not_blank fun _ _ => DecimalDigit.not_blank
  refine isCore_of_visible blankBefore blankAfter ?_
  cases split with
  | minus => exact List.forall_mem_cons.mpr ⟨by decide, digitsVisible⟩
  | plus => exact List.forall_mem_cons.mpr ⟨by decide, digitsVisible⟩
  | unsigned => exact digitsVisible

private theorem SignSplit.longForm {literal digits : List Char} {negative : Bool} {number : Nat}
    (split : SignSplit literal negative digits) (stands : DecimalNumber digits number) :
    LongForm literal negative digits [] where
  sign := by rwa [List.append_nil]
  run := stands.isDigit
  longest := fun _ first => nomatch first

theorem SpellsLong.longValue_eq {text : String} {number : Int64}
    (spells : SpellsLong text number.toInt) (position : Position) :
    longValue text position = .ok number.toInt := by
  obtain ⟨before, literal, after, negative, zeros, written, blankBefore, blankAfter, split, sign⟩ :=
    spells
  have zero : DecimalDigit '0' 0 := rfl
  have shortest : DecimalNumber (Nat.toDigits 10 number.toInt.natAbs) number.toInt.natAbs :=
    stands_toDigits (by decide) (by decide) _
  have stands := shortest.zeros_append zero zeros
  have isCore : IsCore text.toList literal := written ▸ split.isCore stands blankBefore blankAfter
  have outcome : LongOutcome text position literal (.ok _) :=
    .value (split.longForm stands) stands (natAbs_toInt_le sign)
  rw [outcome.longValue_eq isCore, ← sign]

/-- The conversion of a text goes by its one core. If the core is not empty, the longest run of
digits after its sign decides: a number outside of the signed 64-bit range is too large or too
small, whatever comes after the run; otherwise the run has to be all there is, and is converted to
its number. So every spelling of a number is converted back to it. -/
theorem longValue_exact (text : String) (position : Position) :
    (∃ core, (∀ other, IsCore text.toList other ↔ other = core) ∧
      ∀ result, longValue text position = result ↔ LongOutcome text position core result) ∧
    ∀ number : Int64, SpellsLong text number.toInt →
      longValue text position = .ok number.toInt := by
  refine ⟨⟨trim text.toList, fun other => ?_, fun result => ?_⟩, fun number spells => ?_⟩
  · rw [isCore_iff, eq_comm]
  · exact longValue_eq_iff (isCore_trim text.toList)
  · exact spells.longValue_eq position

/-- The limit is passed before the bad character is met. -/
example : longValue " -9223372036854775809x" .origin =
    .error (.invalid " -9223372036854775809x" .long .origin .tooSmall) := by
  rfl

end SchemaScope.Literal
