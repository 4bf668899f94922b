/-!
# Texts

A text is the list of its characters. The operations here are the ones that every part of
the census shares: which characters are blank, what is left of a text once the blanks
around it are gone, the parts of a text around a separator, and padding to a column.
-/
namespace LineCensus

/-- Text as the characters in reading order. -/
abbrev Text := List Char

/-- Closed ranges of code points, ascending and apart. -/
abbrev CodeRanges := List (Nat × Nat)

namespace CodeRanges

/-- A code point lies in one of the ranges. -/
def contains (ranges : CodeRanges) (code : Nat) : Bool :=
  ranges.any fun range => range.1 ≤ code && code ≤ range.2

end CodeRanges

/-- The blank characters: the twenty-five code points with the property White_Space. -/
def blankRanges : CodeRanges :=
  [(0x09, 0x0D), (0x20, 0x20), (0x85, 0x85), (0xA0, 0xA0), (0x1680, 0x1680),
    (0x2000, 0x200A), (0x2028, 0x2029), (0x202F, 0x202F), (0x205F, 0x205F), (0x3000, 0x3000)]

/-- A character is blank when it has the property White_Space. -/
def isBlankChar (char : Char) : Bool := blankRanges.contains char.toNat

namespace Text

/-- A text is blank when each of its characters is. -/
def isBlank (text : Text) : Bool := text.all isBlankChar

/-- A text without the blanks at its front. -/
def dropBlanks (text : Text) : Text := text.dropWhile isBlankChar

/-- A text without the blanks at its front and at its end. -/
def trim (text : Text) : Text := (dropBlanks (dropBlanks text).reverse).reverse

/-- The parts of a text between the separators. A text without a separator is its own only
part, and the empty text has one empty part. -/
def pieces (separator : Char) (text : Text) : List Text :=
  text.foldr (fun char parts =>
    if char = separator then [] :: parts
    else match parts with
      | [] => [[char]]
      | part :: others => (char :: part) :: others) [[]]

/-- A text followed by spaces up to a column, or the text itself when it is longer. -/
def padRight (width : Nat) (text : Text) : Text :=
  text ++ List.replicate (width - text.length) ' '

/-- A text preceded by spaces up to a column, or the text itself when it is longer. -/
def padLeft (width : Nat) (text : Text) : Text :=
  List.replicate (width - text.length) ' ' ++ text

@[simp] theorem pieces_nil (separator : Char) : pieces separator [] = [[]] := rfl

/-- A separator ends a part and starts another. -/
@[simp] theorem pieces_separator (separator : Char) (text : Text) :
    pieces separator (separator :: text) = [] :: pieces separator text := by
  simp [pieces]

/-- There is always at least one part. -/
theorem pieces_ne_nil (separator : Char) (text : Text) : pieces separator text ≠ [] := by
  cases text with
  | nil => simp
  | cons char rest =>
    simp only [pieces, List.foldr_cons]
    split
    · simp
    · split <;> simp

end Text

end LineCensus
