import LineCensus.Text.LetterCase

/-!
# Lower case

The full lower-casing of a text, character by character. A character becomes its lower-case
form, with two exceptions: the capital I with a dot above becomes an `i` and a combining dot,
and a capital sigma becomes a final sigma at the end of a word. A word ends at the sigma when
a cased character stands before it and none after it, where characters that case ignores,
such as the full stop and combining marks, are passed over on both sides.
-/
namespace LineCensus

/-- The lower-case form of a character that has one of its own, and the character itself
otherwise. -/
def lowerChar (char : Char) : Char :=
  match CaseRun.all.find? (·.contains char.toNat) with
  | some run => Char.ofNat ((char.toNat : Int) + run.shift).toNat
  | none => char

/-- A character has a case. -/
def isCased (char : Char) : Bool := casedRanges.contains char.toNat

/-- A character is passed over when the end of a word is looked for. -/
def isCaseIgnorable (char : Char) : Bool := caseIgnorableRanges.contains char.toNat

namespace Text

/-- The first character that case does not ignore is cased. -/
def startsCased (text : Text) : Bool :=
  match text.dropWhile isCaseIgnorable with
  | [] => false
  | char :: _ => isCased char

/-- Lower-cases the rest of a text, holding the characters before it in reverse order. -/
def lowerAfter : Text → Text → Text
  | _, [] => []
  | passed, char :: rest =>
    (if char = 'Σ' then
        if passed.startsCased && !startsCased rest then ['ς'] else ['σ']
      else if char = 'İ' then ['i', '\u0307']
      else [lowerChar char]) ++ lowerAfter (char :: passed) rest

/-- The lower-case form of a text. -/
def lower (text : Text) : Text := lowerAfter [] text

end Text

end LineCensus
