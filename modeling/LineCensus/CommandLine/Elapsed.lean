import LineCensus.Decimal.Places

/-!
# Elapsed time

How long a run took is written with two places in the largest of four units that it reaches:
seconds, and thousandths, millionths and thousandths of a millionth of a second.
-/
namespace LineCensus

/-- A number of nanoseconds in a unit of so many nanoseconds, to the nearest hundredth. -/
def inUnit (nanoseconds unit : Nat) (name : String) : Text :=
  hundredthsText ((100 * nanoseconds + unit / 2) / unit) ++ name.toList

/-- A duration for people. -/
def elapsedText (nanoseconds : Nat) : Text :=
  if 1000000000 ≤ nanoseconds then inUnit nanoseconds 1000000000 "s"
  else if 1000000 ≤ nanoseconds then inUnit nanoseconds 1000000 "ms"
  else if 1000 ≤ nanoseconds then inUnit nanoseconds 1000 "µs"
  else inUnit nanoseconds 1 "ns"

end LineCensus
