import Mathlib.Algebra.Group.Nat.Defs
import Mathlib.Data.List.Induction
import SchemaScope.Literal.Integer
import SchemaScope.Proofs.Text.Trimming

/-!
How literals are read.

A conversion reads the core of a text. In it a row of digits stands for a number in a base, whatever
characters the digits are. The readers add the digits up from the left, which gives the same number.
Zeros in front change nothing.
-/

set_option autoImplicit false

namespace SchemaScope.Literal

theorem convert_of_isCore {α : Type} {text : String} {core : List Char}
    (isCore : Text.IsCore text.toList core) (target : Target) (read : List Char → Except Fault α)
    (position : Position) :
    convert target read text position =
      if core.isEmpty then .error (.empty target position)
      else (read core).mapError (.invalid text target position) := by
  rw [convert, isCore.trim_eq]

theorem convert_of_ne_nil {α : Type} {text : String} {core : List Char}
    (isCore : Text.IsCore text.toList core) (filled : core ≠ []) (target : Target)
    (read : List Char → Except Fault α) (position : Position) :
    convert target read text position =
      (read core).mapError (.invalid text target position) := by
  rw [convert_of_isCore isCore, if_neg (mt List.isEmpty_iff.mp filled)]

/-- Outcomes that always apply and are right are all that there is to say. -/
theorem eq_iff_of_outcome {β : Type} {Outcome : β → Prop} {value result : β}
    (total : ∃ result, Outcome result) (sound : ∀ {result}, Outcome result → value = result) :
    value = result ↔ Outcome result := by
  constructor
  · rintro rfl
    obtain ⟨result, outcome⟩ := total
    rwa [sound outcome]
  · exact sound

/-! ## Rows of digits -/

/-- A property of the first characters is decided by going through their codes. -/
theorem of_code_table {P : Char → Prop} {bound : Nat}
    (table : ∀ code < bound, P (Char.ofNat code)) {char : Char} (small : char.toNat < bound) :
    P char := by
  have here := table char.toNat small
  rwa [Char.ofNat_toNat] at here

/-- The number that one or more digits stand for in a base, the most significant digit first. -/
inductive Stands (base : Nat) (Digit : Char → Nat → Prop) : List Char → Nat → Prop where
  | first {char digit} : Digit char digit → Stands base Digit [char] digit
  | next {chars number char digit} :
      Stands base Digit chars number → Digit char digit →
      Stands base Digit (chars ++ [char]) (number * base + digit)

variable {base number : Nat} {Digit : Char → Nat → Prop} {chars : List Char}

private theorem numberOf_concat (base : Nat) (digits : List Nat) (digit : Nat) :
    numberOf base (digits ++ [digit]) = numberOf base digits * base + digit := by
  simp [numberOf]

theorem Stands.ne_nil (stands : Stands base Digit chars number) : chars ≠ [] := by
  cases stands with
  | first => exact List.cons_ne_nil _ _
  | next => exact List.append_ne_nil_of_right_ne_nil _ (List.cons_ne_nil _ _)

theorem Stands.isDigit (stands : Stands base Digit chars number) :
    ∀ char ∈ chars, ∃ digit, Digit char digit := by
  induction stands with
  | first isDigit =>
      rw [List.forall_mem_singleton]
      exact ⟨_, isDigit⟩
  | next _ isDigit earlierIH =>
      rw [List.forall_mem_append, List.forall_mem_singleton]
      exact ⟨earlierIH, _, isDigit⟩

theorem Stands.not_blank (visible : ∀ char digit, Digit char digit → Text.isBlank char = false)
    (stands : Stands base Digit chars number) : ∀ char ∈ chars, Text.isBlank char = false := by
  intro char member
  obtain ⟨digit, isDigit⟩ := stands.isDigit char member
  exact visible char digit isDigit

private theorem Stands.zero_cons (zero : Digit '0' 0) (stands : Stands base Digit chars number) :
    Stands base Digit ('0' :: chars) number := by
  induction stands with
  | @first char digit isDigit =>
      have two : Stands base Digit (['0'] ++ [char]) (0 * base + digit) :=
        .next (.first zero) isDigit
      rwa [Nat.zero_mul, Nat.zero_add] at two
  | next _ isDigit earlierIH => exact .next earlierIH isDigit

theorem Stands.zeros_append (zero : Digit '0' 0) (stands : Stands base Digit chars number)
    (zeros : Nat) : Stands base Digit (List.replicate zeros '0' ++ chars) number := by
  induction zeros with
  | zero => exact stands
  | succ zeros zerosIH => exact zerosIH.zero_cons zero

theorem stands_toDigits (large : 1 < base)
    (digitChar : ∀ digit < base, Digit digit.digitChar digit) (number : Nat) :
    Stands base Digit (Nat.toDigits base number) number := by
  induction number using Nat.strongRecOn with
  | ind number smallerIH =>
      by_cases small : number < base
      · rw [Nat.toDigits_of_lt_base small]
        exact .first (digitChar number small)
      · have least : base ≤ number := Nat.le_of_not_lt small
        have shorter : number / base < number := Nat.div_lt_self (by omega) large
        have last : number % base < base := Nat.mod_lt number (by omega)
        have longer := Stands.next (smallerIH (number / base) shorter) (digitChar _ last)
        rwa [Nat.div_add_mod', ← Nat.toDigits_of_base_le large least] at longer

/-- Other characters for the same digits stand for the same number. -/
theorem Stands.of_map {replace : Char → Char}
    (same : ∀ char digit, Digit (replace char) digit → Digit char digit)
    (stands : Stands base Digit (chars.map replace) number) : Stands base Digit chars number := by
  generalize replaced : chars.map replace = others at stands
  induction stands generalizing chars with
  | first isDigit =>
      obtain ⟨char, rfl, rfl⟩ := List.map_eq_singleton_iff.mp replaced
      exact .first (same _ _ isDigit)
  | next _ isDigit earlierIH =>
      obtain ⟨earlier, last, rfl, earlierReplaced, lastReplaced⟩ :=
        List.map_eq_append_iff.mp replaced
      obtain ⟨char, rfl, rfl⟩ := List.map_eq_singleton_iff.mp lastReplaced
      exact .next (earlierIH earlierReplaced) (same _ _ isDigit)

theorem natAbs_toInt_le {number : Int64} {negative : Bool}
    (sign : number.toInt = if negative then -(number.toInt.natAbs : Int) else number.toInt.natAbs) :
    number.toInt.natAbs ≤ (if negative then 2 ^ 63 else 2 ^ 63 - 1) := by
  have below := number.toInt_lt
  have above := number.le_toInt
  cases negative with
  | true =>
      simp only [if_true]
      omega
  | false =>
      simp only [Bool.false_eq_true, if_false] at sign ⊢
      omega

/-! ## Digits added up from the left -/

section Reading

variable {digit? : Char → Option Nat}

theorem Stands.numberOf_eq (agree : ∀ char digit, digit? char = some digit ↔ Digit char digit)
    (stands : Stands base Digit chars number) :
    chars ≠ [] ∧ (∀ char ∈ chars, (digit? char).isSome = true) ∧
      numberOf base (chars.filterMap digit?) = number := by
  induction stands with
  | first isDigit =>
      have read := (agree _ _).mpr isDigit
      simp [read, numberOf]
  | next _ isDigit earlierIH =>
      obtain ⟨_, digits, rfl⟩ := earlierIH
      have read := (agree _ _).mpr isDigit
      refine ⟨by simp, ?_, ?_⟩
      · exact List.forall_mem_append.mpr ⟨digits, by simp [read]⟩
      · rw [List.filterMap_append, List.filterMap_cons_some read, List.filterMap_nil,
          numberOf_concat]

theorem stands_numberOf (agree : ∀ char digit, digit? char = some digit ↔ Digit char digit)
    (filled : chars ≠ []) (digits : ∀ char ∈ chars, (digit? char).isSome = true) :
    Stands base Digit chars (numberOf base (chars.filterMap digit?)) := by
  induction chars using List.reverseRecOn with
  | nil => exact absurd rfl filled
  | append_singleton earlier char earlierIH =>
      obtain ⟨earlierDigits, lastDigit⟩ := List.forall_mem_append.mp digits
      obtain ⟨digit, read⟩ := Option.isSome_iff_exists.mp (lastDigit char List.mem_cons_self)
      have isDigit := (agree char digit).mp read
      rw [List.filterMap_append, List.filterMap_cons_some read, List.filterMap_nil,
        numberOf_concat]
      by_cases alone : earlier = []
      · subst alone
        simpa [numberOf] using Stands.first isDigit
      · exact .next (earlierIH alone earlierDigits) isDigit

/-- Adding up from the left reads the rows of digits and nothing else. -/
theorem stands_iff (agree : ∀ char digit, digit? char = some digit ↔ Digit char digit) :
    Stands base Digit chars number ↔
      chars ≠ [] ∧ (∀ char ∈ chars, (digit? char).isSome = true) ∧
        numberOf base (chars.filterMap digit?) = number := by
  constructor
  · exact Stands.numberOf_eq agree
  · rintro ⟨filled, digits, rfl⟩
    exact stands_numberOf agree filled digits

end Reading

end SchemaScope.Literal
