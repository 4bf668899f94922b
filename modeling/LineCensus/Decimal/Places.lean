import LineCensus.Decimal.Double

/-!
# Two decimal places

Amounts in the report have two places. The exact value of the double is rounded, not a
shorter decimal that stands for it, and a half goes to the even neighbour. A sign stays even
when nothing but zeros follow it. Amounts of money are cut to whole units instead, within the
range of an unsigned sixty-four bit word.
-/
namespace LineCensus

/-- A number of hundredths, with a point before the last two digits. -/
def hundredthsText (hundredths : Nat) : Text :=
  let fraction := hundredths % 100
  decimalText (hundredths / 100) ++ '.' :: decimalText (fraction / 10)
    ++ decimalText (fraction % 10)

namespace Double

/-- A sign, for negative numbers only. -/
def signText (negative : Bool) : Text := if negative then ['-'] else []

/-- A double with two decimal places. -/
def twoPlaces : Double → Text
  | .nan => "NaN".toList
  | .infinite negative => signText negative ++ "inf".toList
  | .finite negative magnitude => signText negative ++ hundredthsText (magnitude.roundTimes 100)

/-- A double cut to a whole number, where everything below one is zero, everything beyond the
greatest word is that word, and what is not a number is zero. -/
def wholeWord : Double → Nat
  | .nan => 0
  | .infinite negative => if negative then 0 else greatestWord
  | .finite negative magnitude => if negative then 0 else min magnitude.whole greatestWord

end Double

end LineCensus
