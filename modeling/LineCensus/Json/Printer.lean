import LineCensus.Json.Basic
import LineCensus.Decimal.Shortest

/-!
# Writing JSON

The written form of a JSON value has one item to a line, each level set two blanks further
in, and empty arrays and objects without any. Strings keep every character but the quote, the
backslash and the control characters below the blank, which are escaped.

A double has the fewest digits that read back as the same double. Numbers from 10^-5 up to
but not including 10^16 are written with a point and at least one digit on either side; the
others have one digit before the point and a signed exponent.
-/
namespace LineCensus.Json

/-- The lower-case hexadecimal digit of a number below sixteen. -/
def hexDigit (value : Nat) : Char := Nat.digitChar value

/-- A character inside a string. -/
def escapeChar (char : Char) : Text :=
  if char = '\x22' then ['\\', '\x22']
  else if char = '\\' then ['\\', '\\']
  else if char = '\u0008' then ['\\', 'b']
  else if char = '\u000C' then ['\\', 'f']
  else if char = '\n' then ['\\', 'n']
  else if char = '\r' then ['\\', 'r']
  else if char = '\t' then ['\\', 't']
  else if char.toNat < 0x20 then
    ['\\', 'u', '0', '0', hexDigit (char.toNat / 16), hexDigit (char.toNat % 16)]
  else [char]

/-- A string between quotes. -/
def quote (text : Text) : Text := '\x22' :: text.flatMap escapeChar ++ ['\x22']

/-- Where a decimal is written with a point: the bounds of the exponent `k` in
`0.d₁d₂… × 10^k`. -/
structure PointRange where
  /-- The greatest exponent below the range. -/
  below : Int
  /-- The greatest exponent in the range. -/
  upTo : Int
  deriving DecidableEq, Repr

/-- Doubles are written with a point from 10^-5 up to but not including 10^16. -/
def pointRange : PointRange := ⟨-5, 16⟩

/-- A decimal with a point, where the point stands so many digits after the first. -/
def pointText (digits : Text) (point : Int) : Text :=
  if point ≤ 0 then
    '0' :: '.' :: List.replicate (-point).toNat '0' ++ digits
  else if (digits.length : Int) ≤ point then
    digits ++ List.replicate (point - digits.length).toNat '0' ++ ['.', '0']
  else digits.take point.toNat ++ '.' :: digits.drop point.toNat

/-- A decimal with one digit before the point and a signed exponent. -/
def exponentText (digits : Text) (exponent : Int) : Text :=
  let mark := if exponent < 0 then '-' else '+'
  (match digits with
    | [] => []
    | [first] => [first]
    | first :: others => first :: '.' :: others)
    ++ 'e' :: mark :: decimalText exponent.natAbs

/-- The written form of a decimal. -/
def decimalForm (range : PointRange) (decimal : Decimal) : Text :=
  let digits := decimalText decimal.digits
  let point := decimal.exponent + digits.length
  if range.below < point ∧ point ≤ range.upTo then pointText digits point
  else exponentText digits (point - 1)

/-- The written form of a double. -/
def realText (value : Float) : Text :=
  match Double.ofFloat value with
  | .nan => "null".toList
  | .infinite _ => "null".toList
  | .finite negative magnitude =>
    (if negative then ['-'] else []) ++
      if magnitude.mantissa = 0 then "0.0".toList
      else decimalForm pointRange magnitude.shortest

/-- The written form of a value that holds no others. -/
def leafText : Json → Text
  | .null => "null".toList
  | .boolean value => if value then "true".toList else "false".toList
  | .natural value => decimalText value
  | .real value => realText value
  | .string value => quote value
  | .array _ => "[]".toList
  | .object _ => "\x7b\x7d".toList

/-- A line break and the blanks of a level. -/
def newLine (level : Nat) : Text := '\n' :: List.replicate (2 * level) ' '

mutual

/-- The written form of a value at a level. -/
def render (level : Nat) : Json → Text
  | .array (first :: others) =>
    '[' :: newLine (level + 1) ++ render (level + 1) first
      ++ renderItems (level + 1) others ++ newLine level ++ [']']
  | .object ((key, first) :: others) =>
    '\x7b' :: newLine (level + 1) ++ quote key ++ ':' :: ' ' :: render (level + 1) first
      ++ renderMembers (level + 1) others ++ newLine level ++ ['\x7d']
  | leaf => leafText leaf

/-- The items after the first, each after a comma and on a line of its own. -/
def renderItems (level : Nat) : List Json → Text
  | [] => []
  | item :: others => ',' :: newLine level ++ render level item ++ renderItems level others

/-- The members after the first, each after a comma and on a line of its own. -/
def renderMembers (level : Nat) : List (Text × Json) → Text
  | [] => []
  | (key, value) :: others =>
    ',' :: newLine level ++ quote key ++ ':' :: ' ' :: render level value
      ++ renderMembers level others

end

/-- The written form of a value. -/
def text (value : Json) : Text := value.render 0

end LineCensus.Json
