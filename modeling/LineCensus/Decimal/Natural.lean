import LineCensus.Text.Basic

/-!
# Natural numbers as text

A natural number is written in base ten without leading zeros. For reading, its digits are
set in groups of three, counted from the last, with a comma between two groups.
-/
namespace LineCensus

/-- The greatest unsigned sixty-four bit word: 2^64 - 1. -/
def greatestWord : Nat := 18446744073709551615

/-- The decimal digits of a natural number, without leading zeros. -/
def decimalText (value : Nat) : Text := Nat.toDigits 10 value

/-- Sets digits that run from the last to the first in groups of three. -/
def groupFromLast : Text → Text
  | ones :: tens :: hundreds :: next :: others =>
    ones :: tens :: hundreds :: ',' :: groupFromLast (next :: others)
  | few => few

/-- The decimal digits of a natural number in groups of three. -/
def groupThousands (value : Nat) : Text := (groupFromLast (decimalText value).reverse).reverse

end LineCensus
