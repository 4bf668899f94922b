import LineCensus.Tally
import LineCensus.Estimate

/-!
# Reports

A report shows a tally in two tables. The rows of the directories are in the order of the
bytes of their names, each with its languages; the rows of the languages carry their share of
all lines. Languages go by falling line count wherever they are listed, and where two counts
are equal the language that the tally saw first goes first.
-/
namespace LineCensus

/-- A language with its lines. -/
structure LanguageCount where
  /-- The tag of the language. -/
  language : Text
  /-- Its lines. -/
  lines : Nat
  deriving DecidableEq, Repr

/-- The row of a directory. -/
structure DirectoryRow where
  /-- The name of the directory. -/
  directory : Text
  /-- Its lines in all languages. -/
  total : Nat
  /-- Its lines by language. -/
  languages : List LanguageCount
  deriving DecidableEq, Repr

/-- The row of a language. -/
structure LanguageRow where
  /-- The tag of the language. -/
  language : Text
  /-- Its lines in all directories. -/
  lines : Nat
  /-- Its share of all lines, in hundredths. -/
  percent : Float

/-- A tally as it is shown. -/
structure Report where
  /-- The rows of the directories. -/
  directories : List DirectoryRow
  /-- The rows of the languages. -/
  languages : List LanguageRow
  /-- The lines of all directories. -/
  totalLines : Nat
  /-- What it takes to write as many lines. -/
  estimate : Estimate

/-- The share of a count in a total, in hundredths; a share of nothing is zero. -/
def percentage (count total : Nat) : Float :=
  if total = 0 then 0.0 else Float.ofNat count / Float.ofNat total * 100.0

namespace LanguageLines

/-- The languages by falling line count, first seen first where counts are equal. -/
def byCount (counts : LanguageLines) : List LanguageCount :=
  (counts.entries.map fun entry => ⟨entry.1, entry.2⟩).mergeSort fun left right =>
    decide (right.lines ≤ left.lines)

end LanguageLines

namespace DirectoryRow

/-- The row of a directory with its cells. -/
def ofCells (directory : Text) (cells : LanguageLines) : DirectoryRow :=
  ⟨directory, cells.total, cells.byCount⟩

end DirectoryRow

namespace Report

/-- The report on a tally. -/
def ofTally (tally : Tally) : Report :=
  let directories :=
    (tally.directories.entries.map fun entry => DirectoryRow.ofCells entry.1 entry.2).mergeSort
      fun left right => left.directory.utf8.atMost right.directory.utf8
  let totalLines := sumLines (directories.map DirectoryRow.total)
  { directories
    languages := tally.languages.byCount.map fun entry =>
      ⟨entry.language, entry.lines, percentage entry.lines totalLines⟩
    totalLines
    estimate := Estimate.ofSourceLines totalLines }

end Report

end LineCensus
