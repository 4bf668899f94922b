import LineCensus.Decimal.Natural

/-!
# Doubles as exact numbers

A double that is a number is a natural number times a power of two, with a sign. Everything
that is written of a double is computed from these integers, so no rounding happens but the
one that the written form asks for.
-/
namespace LineCensus

/-- A natural number times a power of two, as a double holds it. -/
structure Binary where
  /-- The natural number, below 2^53. -/
  mantissa : Nat
  /-- The exponent of the power of two. -/
  exponent : Int
  /-- The double below lies at half the distance of the double above. -/
  narrowBelow : Bool
  deriving DecidableEq, Repr

/-- The meaning of a double. -/
inductive Double where
  /-- Not a number. -/
  | nan
  /-- An infinity. -/
  | infinite (negative : Bool)
  /-- A number; zero has a sign too. -/
  | finite (negative : Bool) (magnitude : Binary)
  deriving DecidableEq, Repr

/-- The numerator of a power with an integer exponent. -/
def powerNumerator (base : Nat) (exponent : Int) : Nat := Nat.pow base exponent.toNat

/-- The denominator of a power with an integer exponent. -/
def powerDenominator (base : Nat) (exponent : Int) : Nat := Nat.pow base (-exponent).toNat

/-- How many fractions there are for an exponent: 2^52. -/
def fractionCount : Nat := 4503599627370496

/-- How many exponents there are for a sign: 2^11. -/
def exponentCount : Nat := 2048

namespace Binary

/-- The magnitude with the given exponent field, below 2047, and fraction field. -/
def ofFields (exponent fraction : Nat) : Binary :=
  if exponent = 0 then ⟨fraction, -1074, false⟩
  else ⟨fractionCount + fraction, (exponent : Int) - 1075, fraction = 0 && exponent > 1⟩

/-- The magnitude times a factor, rounded to the nearest natural number, a half to the even
neighbour. -/
def roundTimes (value : Binary) (factor : Nat) : Nat :=
  let numerator := value.mantissa * factor * powerNumerator 2 value.exponent
  let denominator := powerDenominator 2 value.exponent
  let quotient := numerator / denominator
  let twice := 2 * (numerator % denominator)
  if twice < denominator then quotient
  else if twice = denominator then quotient + quotient % 2
  else quotient + 1

/-- The whole part of the magnitude. -/
def whole (value : Binary) : Nat :=
  value.mantissa * powerNumerator 2 value.exponent / powerDenominator 2 value.exponent

end Binary

namespace Double

/-- The meaning of the sixty-four bits of a double. -/
def ofBits (bits : Nat) : Double :=
  let negative := bits / fractionCount / exponentCount % 2 = 1
  let exponent := bits / fractionCount % exponentCount
  let fraction := bits % fractionCount
  if exponent + 1 = exponentCount then
    if fraction = 0 then .infinite negative else .nan
  else .finite negative (Binary.ofFields exponent fraction)

/-- The meaning of a double. -/
def ofFloat (value : Float) : Double := ofBits value.toBits.toNat

end Double

end LineCensus
