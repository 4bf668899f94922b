import LineCensus.Decimal.Double

/-!
# Shortest decimals

A double is written with the fewest decimal digits that read back as the same double and,
among decimals of that length, with the one nearest to its exact value. The numbers that
read back as a double form an interval: half the distance to each neighbour, with the ends
included when the mantissa is even. A decimal of a given length lies on a grid of powers of
ten; when any point of the grid lies in the interval, so does one of the two neighbours of
the exact value on it, and only those two are tried.
-/
namespace LineCensus

/-- A natural number times a power of ten. -/
structure Decimal where
  /-- The natural number. -/
  digits : Nat
  /-- The exponent of the power of ten. -/
  exponent : Int
  deriving DecidableEq, Repr

/-- Compares a number of powers of ten with a number of powers of two. -/
def compareScaled (tens : Nat) (decimalExponent : Int) (twos : Nat) (binaryExponent : Int) :
    Ordering :=
  compare (tens * powerNumerator 10 decimalExponent * powerDenominator 2 binaryExponent)
    (twos * powerNumerator 2 binaryExponent * powerDenominator 10 decimalExponent)

namespace Decimal

/-- The same number without zeros at the end of its digits. -/
def dropZeros (decimal : Decimal) : Decimal :=
  if 0 < decimal.digits ∧ decimal.digits % 10 = 0 then
    dropZeros ⟨decimal.digits / 10, decimal.exponent + 1⟩
  else decimal
termination_by decimal.digits
decreasing_by omega

end Decimal

namespace Binary

/-- A decimal reads back as the double: it lies in the interval of the numbers nearest to
it. The ends are counted in quarters of the last place. -/
def admits (value : Binary) (decimal : Decimal) : Bool :=
  let low := if value.narrowBelow then 4 * value.mantissa - 1 else 4 * value.mantissa - 2
  let high := 4 * value.mantissa + 2
  let closed := value.mantissa % 2 = 0
  let above := compareScaled decimal.digits decimal.exponent low (value.exponent - 2)
  let below := compareScaled decimal.digits decimal.exponent high (value.exponent - 2)
  (above = .gt || closed && above = .eq) && (below = .lt || closed && below = .eq)

/-- Lowers an exponent of ten, at most so many times, as long as its power exceeds the
value. -/
def lowerScale (value : Binary) : Nat → Int → Int
  | 0, scale => scale
  | steps + 1, scale =>
    if compareScaled 1 (scale - 1) value.mantissa value.exponent = .gt then
      lowerScale value steps (scale - 1)
    else scale

/-- The least exponent of ten whose power exceeds the value. The start is found from the
length of the mantissa in bits and is too high by at most three. -/
def scale (value : Binary) : Int :=
  let bits := (value.mantissa.log2 : Int) + value.exponent + 1
  value.lowerScale 4 (Int.fdiv (bits * 30103) 100000 + 2)

/-- The grid point at or below the value, for a grid of powers of ten. -/
def floorOnGrid (value : Binary) (exponent : Int) : Nat :=
  value.mantissa * powerNumerator 2 value.exponent * powerDenominator 10 exponent
    / (powerDenominator 2 value.exponent * powerNumerator 10 exponent)

/-- The decimal on a grid that reads back as the double and is nearest to it; of two equally
near, the even one. -/
def onGrid? (value : Binary) (exponent : Int) : Option Decimal :=
  let low := value.floorOnGrid exponent
  let lower : Decimal := ⟨low, exponent⟩
  let upper : Decimal := ⟨low + 1, exponent⟩
  match value.admits lower, value.admits upper with
  | true, false => some lower
  | false, true => some upper
  | false, false => none
  | true, true =>
    match compareScaled (2 * low + 1) exponent (2 * value.mantissa) value.exponent with
    | .gt => some lower
    | .lt => some upper
    | .eq => some (if low % 2 = 0 then lower else upper)

/-- The exact value as a decimal. -/
def exact (value : Binary) : Decimal :=
  ⟨value.mantissa * powerNumerator 2 value.exponent * powerDenominator 5 value.exponent,
    min value.exponent 0⟩

/-- The shortest decimal that reads back as the double. Seventeen digits are always enough;
were they not, the exact value would be written. -/
def shortest (value : Binary) : Decimal :=
  let scale := value.scale
  let found := (List.range 17).findSome? fun index : Nat => value.onGrid? (scale - (index + 1))
  (found.getD value.exact).dropZeros

/-- What is chosen on a grid reads back as the double. -/
theorem admits_of_onGrid? {value : Binary} {exponent : Int} {decimal : Decimal}
    (chosen : value.onGrid? exponent = some decimal) : value.admits decimal = true := by
  simp only [onGrid?] at chosen
  split at chosen
  · next admitted _ => cases chosen; exact admitted
  · next _ admitted => cases chosen; exact admitted
  · cases chosen
  · next admittedLow admittedHigh =>
    split at chosen
    · cases chosen; exact admittedLow
    · cases chosen; exact admittedHigh
    · cases chosen
      split
      · exact admittedLow
      · exact admittedHigh

end Binary

end LineCensus
