import LineCensus.Decimal.Shortest
import Mathlib.Algebra.GroupWithZero.Nat

/-!
# Normal forms of decimals

A number has many decimals: zeros move between the digits and the exponent. The normal form takes
one decimal for each number, without zeros at the end of its digits. What is written of a double
other than zero is such a normal form (`Binary.normal_shortest`), and the normal form of a whole
number gives the number back (`Decimal.whole?_normal`).
-/
namespace LineCensus

namespace Decimal

/-- The decimal of the same number whose digits do not end in zero, or zero without an exponent. -/
def normal (decimal : Decimal) : Decimal :=
  if decimal.digits = 0 then ⟨0, 0⟩ else decimal.dropZeros

/-- The natural number that a decimal stands for, unless its exponent is negative. -/
def whole? (decimal : Decimal) : Option Nat :=
  if decimal.exponent < 0 then none else some (decimal.digits * 10 ^ decimal.exponent.toNat)

/-- Digits that are not zero as a whole stay so without zeros at their end. -/
theorem digits_dropZeros_pos {decimal : Decimal} (positive : 0 < decimal.digits) :
    0 < decimal.dropZeros.digits := by
  fun_induction dropZeros decimal with
  | case1 decimal ends step => exact step (by dsimp only; omega)
  | case2 decimal _ => exact positive

/-- Nothing ends in zero once zeros are dropped. -/
theorem dropZeros_dropZeros (decimal : Decimal) :
    decimal.dropZeros.dropZeros = decimal.dropZeros := by
  fun_induction dropZeros decimal with
  | case1 decimal ends step => exact step
  | case2 decimal done => rw [dropZeros, if_neg done]

/-- Each zero that is dropped is counted in the exponent. -/
theorem dropZeros_scaled {digits : Nat} (positive : 0 < digits) (exponent : Int) (zeros : Nat) :
    dropZeros ⟨digits * 10 ^ zeros, exponent⟩ = dropZeros ⟨digits, exponent + zeros⟩ := by
  induction zeros generalizing exponent with
  | zero => simp
  | succ zeros step =>
    have grown : digits * 10 ^ (zeros + 1) = digits * 10 ^ zeros * 10 := by
      rw [Nat.pow_succ, Nat.mul_assoc]
    have larger : 0 < digits * 10 ^ zeros :=
      Nat.mul_pos positive (Nat.pow_pos (by decide))
    have ends : 0 < digits * 10 ^ zeros * 10 ∧ digits * 10 ^ zeros * 10 % 10 = 0 := by omega
    have counted : exponent + 1 + (zeros : Int) = exponent + ((zeros + 1 : Nat) : Int) := by omega
    rw [grown, dropZeros, if_pos ends, Nat.mul_div_cancel _ (by decide), step, counted]

/-- The number stays the same when zeros are dropped. -/
theorem digits_of_dropZeros (decimal : Decimal) :
    decimal.exponent ≤ decimal.dropZeros.exponent ∧
      decimal.digits = decimal.dropZeros.digits *
        10 ^ (decimal.dropZeros.exponent - decimal.exponent).toNat := by
  fun_induction dropZeros decimal with
  | case1 decimal ends step =>
    obtain ⟨later, same⟩ := step
    dsimp only at later same
    generalize dropZeros ⟨decimal.digits / 10, decimal.exponent + 1⟩ = last at later same ⊢
    have more : (last.exponent - decimal.exponent).toNat =
        (last.exponent - (decimal.exponent + 1)).toNat + 1 := by omega
    refine ⟨by omega, ?_⟩
    rw [more, Nat.pow_succ, ← Nat.mul_assoc, ← same]
    omega
  | case2 decimal _ => simp

/-- A number has one normal form, however many zeros are counted in the exponent. -/
theorem normal_scaled (digits : Nat) (exponent : Int) (zeros : Nat) :
    normal ⟨digits * 10 ^ zeros, exponent⟩ = normal ⟨digits, exponent + zeros⟩ := by
  rcases Nat.eq_zero_or_pos digits with rfl | positive
  · simp [normal]
  · have larger : 0 < digits * 10 ^ zeros :=
      Nat.mul_pos positive (Nat.pow_pos (by decide))
    unfold normal
    rw [if_neg (Nat.ne_of_gt larger), if_neg (Nat.ne_of_gt positive)]
    exact dropZeros_scaled positive exponent zeros

/-- A natural number is had back from its normal form. -/
theorem whole?_normal (number : Nat) : (normal ⟨number, 0⟩).whole? = some number := by
  unfold normal
  split
  · next zero =>
    dsimp only at zero
    rw [zero]
    rfl
  · obtain ⟨later, same⟩ := digits_of_dropZeros ⟨number, 0⟩
    dsimp only at later same
    rw [Int.sub_zero] at same
    rw [whole?, if_neg (Int.not_lt.mpr later), ← same]

end Decimal

namespace Binary

/-- Comparing a number of powers with zero powers. -/
theorem compareScaled_zero {twos : Nat} (positive : 0 < twos) (decimalExponent : Int)
    (binaryExponent : Int) : compareScaled 0 decimalExponent twos binaryExponent = .lt := by
  have larger : 0 < twos * powerNumerator 2 binaryExponent * powerDenominator 10 decimalExponent :=
    Nat.mul_pos (Nat.mul_pos positive (Nat.pow_pos (by decide))) (Nat.pow_pos (by decide))
  unfold compareScaled
  rw [Nat.zero_mul, Nat.zero_mul]
  exact Nat.compare_eq_lt.mpr larger

/-- A decimal that reads back as a double other than zero is not zero. -/
theorem digits_pos_of_admits {value : Binary} {decimal : Decimal} (positive : 0 < value.mantissa)
    (admitted : value.admits decimal = true) : 0 < decimal.digits := by
  rcases Nat.eq_zero_or_pos decimal.digits with zero | given
  · have low : 0 < if value.narrowBelow then 4 * value.mantissa - 1 else 4 * value.mantissa - 2 := by
      split <;> omega
    simp only [admits, zero, compareScaled_zero low] at admitted
    simp at admitted
  · exact given

/-- What is written of a double other than zero has a digit other than zero. -/
theorem digits_shortest_pos {value : Binary} (positive : 0 < value.mantissa) :
    0 < value.shortest.digits := by
  unfold shortest
  apply Decimal.digits_dropZeros_pos
  cases found : (List.range 17).findSome? fun index : Nat =>
      value.onGrid? (value.scale - (index + 1)) with
  | none =>
    exact Nat.mul_pos (Nat.mul_pos positive (Nat.pow_pos (by decide))) (Nat.pow_pos (by decide))
  | some decimal =>
    obtain ⟨index, -, chosen⟩ := List.exists_of_findSome?_eq_some found
    exact digits_pos_of_admits positive (admits_of_onGrid? chosen)

/-- What is written of a double other than zero is in normal form. -/
theorem normal_shortest {value : Binary} (positive : 0 < value.mantissa) :
    value.shortest.normal = value.shortest := by
  rw [Decimal.normal, if_neg (Nat.ne_of_gt (digits_shortest_pos positive))]
  exact Decimal.dropZeros_dropZeros _

end Binary

end LineCensus
