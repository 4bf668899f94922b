import LineCensus.Error
import LineCensus.FirstSeen

/-!
# Tallies

A tally holds the source lines of every directory by language, and beside it the totals of
the languages over all directories. Both list what they hold in the order in which it was
first recorded. Nothing is recorded for no lines, so every cell is positive, but a directory
may be listed without a cell. The totals repeat what the cells say; `Tally.check` compares
the two and names the first difference.
-/
namespace LineCensus

/-- The sum of numbers of lines. -/
def sumLines (counts : List Nat) : Nat := counts.foldr (· + ·) 0

/-- Source lines by language. -/
abbrev LanguageLines := FirstSeen Text Nat

namespace LanguageLines

/-- Adds lines to a language. -/
def add (counts : LanguageLines) (language : Text) (lines : Nat) : LanguageLines :=
  counts.alter language fun present => present.getD 0 + lines

/-- The lines of a language, none when it is not listed. -/
def linesOf (counts : LanguageLines) (language : Text) : Nat := (counts.get? language).getD 0

/-- The lines of all languages. -/
def total (counts : LanguageLines) : Nat := sumLines counts.values

/-- Two tables hold the same lines for the same languages. -/
def agrees (left right : LanguageLines) : Bool := FirstSeen.agrees (fun a b => a == b) left right

end LanguageLines

/-- Source lines by directory and language, with the totals of the languages. -/
structure Tally where
  /-- The lines of each directory by language. -/
  directories : FirstSeen Text LanguageLines := ∅
  /-- The lines of each language in all directories. -/
  languages : LanguageLines := ∅
  deriving DecidableEq, Inhabited

namespace Tally

/-- The tally without directories. -/
def empty : Tally := {}

/-- Lists a directory, without changing one that is listed. -/
def addDirectory (tally : Tally) (directory : Text) : Tally :=
  { tally with directories := tally.directories.alter directory fun present => present.getD ∅ }

/-- Records lines of a language in a directory, and nothing when there are none. -/
def record (tally : Tally) (directory language : Text) (lines : Nat) : Tally :=
  if lines = 0 then tally
  else
    { directories :=
        tally.directories.alter directory fun present => (present.getD ∅).add language lines
      languages := tally.languages.add language lines }

/-- Lists a directory and records its lines, language by language. -/
def recordDirectory (tally : Tally) (directory : Text) (cells : LanguageLines) : Tally :=
  cells.entries.foldl (fun sum cell => sum.record directory cell.1 cell.2)
    (tally.addDirectory directory)

/-- Adds everything in another tally, directory by directory. -/
def merge (tally other : Tally) : Tally :=
  other.directories.entries.foldl (fun sum entry => sum.recordDirectory entry.1 entry.2) tally

/-- The cells of a directory, if it is listed. -/
def cells? (tally : Tally) (directory : Text) : Option LanguageLines :=
  tally.directories.get? directory

/-- The lines of a language in a directory. -/
def linesOf (tally : Tally) (directory language : Text) : Nat :=
  ((tally.cells? directory).getD ∅).linesOf language

/-- The lines of a language in all directories, by the totals. -/
def languageTotal (tally : Tally) (language : Text) : Nat := tally.languages.linesOf language

/-- The lines of a directory in all languages. -/
def directoryTotal (tally : Tally) (directory : Text) : Nat :=
  ((tally.cells? directory).getD ∅).total

/-- The lines of all directories. -/
def grandTotal (tally : Tally) : Nat := sumLines (tally.directories.values.map LanguageLines.total)

/-- The totals of the languages as the cells give them, in the order of the cells. -/
def cellTotals (tally : Tally) : LanguageLines :=
  tally.directories.values.foldl (fun sums cells =>
    cells.entries.foldl (fun sums cell => sums.add cell.1 cell.2) sums) ∅

/-- Compares the totals with the cells: first the languages that have cells, in the order of
the cells, and then the sums of everything. -/
def check (tally : Tally) : Except Error Unit :=
  match tally.cellTotals.entries.find? fun sum => tally.languageTotal sum.1 ≠ sum.2 with
  | some (language, expected) =>
    .error (.tallyMismatch language expected (tally.languageTotal language))
  | none =>
    if tally.languages.total = tally.grandTotal then .ok ()
    else .error (.tallyMismatch "total".toList tally.grandTotal tally.languages.total)

/-- Two tallies list the same directories with the same cells and the same totals, in any
order. -/
def agrees (left right : Tally) : Bool :=
  FirstSeen.agrees LanguageLines.agrees left.directories right.directories &&
    left.languages.agrees right.languages

/-- Listing a directory changes no total. -/
@[simp] theorem languages_addDirectory (tally : Tally) (directory : Text) :
    (tally.addDirectory directory).languages = tally.languages := rfl

/-- No lines leave a tally as it is. -/
@[simp] theorem record_zero (tally : Tally) (directory language : Text) :
    tally.record directory language 0 = tally := by
  simp [record]

end Tally

end LineCensus
