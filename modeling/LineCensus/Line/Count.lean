import LineCensus.Line.Basic
import LineCensus.Text.Lines

/-!
# Counting lines

The lines of a text are read one after another, each in the context that the line before it
left, and counted by kind. Counting is a fold over the lines, so a text is counted from any
context (`Grammar.countFrom`), and the count of a text is the count from the outside. The
bytes of a file are counted the same way over the lines read from the bytes.
-/
namespace LineCensus

/-- The number of lines of each kind. -/
structure LineCount where
  /-- Lines of every kind. -/
  total : Nat := 0
  /-- Lines of code. -/
  code : Nat := 0
  /-- Lines of comments only. -/
  comment : Nat := 0
  /-- Blank lines. -/
  blank : Nat := 0
  deriving DecidableEq, Repr, Inhabited

namespace LineCount

/-- Counts one more line. -/
def record (count : LineCount) : LineKind → LineCount
  | .code => { count with total := count.total + 1, code := count.code + 1 }
  | .comment => { count with total := count.total + 1, comment := count.comment + 1 }
  | .blank => { count with total := count.total + 1, blank := count.blank + 1 }

/-- The physical source lines of a file are its lines of code. -/
def sourceLines (count : LineCount) : Nat := count.code

end LineCount

/-- A count under way: the lines counted and the context of the next. -/
structure Counting where
  /-- The lines counted so far. -/
  count : LineCount := {}
  /-- The context of the next line. -/
  context : Context := .outside
  deriving DecidableEq, Repr, Inhabited

namespace Grammar

/-- Counts one line. -/
def countLine (grammar : Grammar) (counting : Counting) (line : Text) : Counting :=
  let (kind, context) := grammar.classify counting.context line
  ⟨counting.count.record kind, context⟩

/-- Counts lines one after another. -/
def countFrom (grammar : Grammar) (counting : Counting) (lines : List Text) : Counting :=
  lines.foldl grammar.countLine counting

/-- The lines of a text by kind. -/
def countText (grammar : Grammar) (text : Text) : LineCount :=
  (grammar.countFrom {} text.lines).count

/-- The lines of a file by kind, from its bytes. -/
def countBytes (grammar : Grammar) (bytes : Bytes) : LineCount :=
  (grammar.countFrom {} (Bytes.lines bytes)).count

end Grammar

namespace LineCount

/-- Every line counted has a kind. -/
def Balanced (count : LineCount) : Prop :=
  count.total = count.code + count.comment + count.blank

/-- Counting a line keeps the balance of the kinds. -/
theorem Balanced.record {count : LineCount} (balanced : count.Balanced) (kind : LineKind) :
    (count.record kind).Balanced := by
  unfold Balanced at balanced ⊢
  cases kind <;> simp only [LineCount.record] <;> omega

end LineCount

namespace Grammar

/-- Counting lines in two parts is counting the second part after the first. -/
theorem countFrom_append (grammar : Grammar) (counting : Counting) (front back : List Text) :
    grammar.countFrom counting (front ++ back) =
      grammar.countFrom (grammar.countFrom counting front) back :=
  List.foldl_append

/-- Counting keeps the balance of the kinds. -/
theorem balanced_countFrom (grammar : Grammar) {counting : Counting}
    (balanced : counting.count.Balanced) (lines : List Text) :
    (grammar.countFrom counting lines).count.Balanced := by
  induction lines generalizing counting with
  | nil => exact balanced
  | cons line rest step => exact step (balanced.record _)

end Grammar

end LineCensus
