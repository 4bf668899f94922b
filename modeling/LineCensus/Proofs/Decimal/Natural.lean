import LineCensus.Decimal.Natural
import Mathlib.Tactic.Tauto

/-!
# The digits of natural numbers

A natural number is written with digits only, with at least one, and is had back from them
(`ofDigitChars_decimalText`), so different numbers have different digits. Only the digits of zero
begin with a zero. Set in groups, the digits have nothing between them but commas.
-/
namespace LineCensus

/-- The digits of a natural number are digits. -/
theorem isDigit_of_mem_decimalText {number : Nat} {char : Char}
    (member : char ∈ decimalText number) : char.isDigit = true :=
  Nat.isDigit_of_mem_toDigits (by decide) (by decide) member

/-- A natural number has a digit. -/
theorem decimalText_ne_nil (number : Nat) : decimalText number ≠ [] := Nat.toDigits_ne_nil

/-- A natural number is had back from its digits. -/
theorem ofDigitChars_decimalText (number : Nat) :
    Nat.ofDigitChars 10 (decimalText number) 0 = number :=
  Nat.ofDigitChars_toDigits (by decide) (by decide)

/-- A natural number other than zero does not begin with a zero. -/
theorem head?_decimalText {number : Nat} (positive : 0 < number) :
    (decimalText number).head? ≠ some '0' := by
  induction number using Nat.strongRecOn with
  | ind number step =>
    unfold decimalText
    rw [Nat.toDigits_eq_if (by decide)]
    split
    · next small =>
      have each : ∀ digit, digit < 10 → 0 < digit → [Nat.digitChar digit].head? ≠ some '0' := by
        decide
      exact each number small positive
    · next large =>
      rw [List.head?_append, Option.or_of_isSome (List.isSome_head?.mpr Nat.toDigits_ne_nil)]
      exact step (number / 10) (by omega) (by omega)

/-- Different natural numbers have different digits. -/
theorem decimalText_injective : Function.Injective decimalText :=
  Function.LeftInverse.injective ofDigitChars_decimalText

/-- Setting digits in groups adds commas only. -/
theorem mem_groupFromLast {digits : Text} {char : Char} (member : char ∈ groupFromLast digits) :
    char = ',' ∨ char ∈ digits := by
  fun_induction groupFromLast digits with
  | case1 ones tens hundreds next others step =>
    simp only [List.mem_cons] at member step ⊢
    tauto
  | case2 few => exact .inr member

/-- A natural number in groups is written with digits and commas. -/
theorem mem_groupThousands {number : Nat} {char : Char} (member : char ∈ groupThousands number) :
    char = ',' ∨ char.isDigit = true := by
  refine (mem_groupFromLast (List.mem_reverse.mp member)).imp_right fun digit => ?_
  exact isDigit_of_mem_decimalText (List.mem_reverse.mp digit)

end LineCensus
