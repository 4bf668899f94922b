import LineCensus.Path.Basic
import LineCensus.Decimal.Natural

/-!
# Errors

Everything that can go wrong, by its cause. An error has a kind, by which programs tell it
apart, and a message for people; the errors that wrap another failure keep the text of it as
their source.
-/
namespace LineCensus

/-- Why the census fails. -/
inductive Error where
  /-- The command line does not name one directory. -/
  | usage
  /-- The path to count is no directory. -/
  | rootNotFound (path : Path)
  /-- A file cannot be read. -/
  | fileRead (path : Path) (cause : Text)
  /-- The two sides of a tally disagree on a total. -/
  | tallyMismatch (key : Text) (expected actual : Nat)
  /-- The worker threads cannot be started. -/
  | workerPool (cause : Text)
  /-- Output cannot be written. -/
  | output (cause : Text)
  /-- A report cannot be written as JSON. -/
  | json (cause : Text)
  deriving DecidableEq, Repr

namespace Error

/-- The name of the kind of an error. -/
def kind : Error → Text
  | usage => "Usage".toList
  | rootNotFound _ => "RootNotFound".toList
  | fileRead _ _ => "FileRead".toList
  | tallyMismatch _ _ _ => "TallyMismatch".toList
  | workerPool _ => "WorkerPool".toList
  | output _ => "IO".toList
  | json _ => "JSON".toList

/-- The message of an error. -/
def message : Error → Text
  | usage => "Usage: sloccount <source_directory>".toList
  | rootNotFound path => "Directory not found: ".toList ++ path.text
  | fileRead path _ => "Failed to read file: ".toList ++ path.text
  | tallyMismatch key expected actual =>
    "Tally mismatch for ".toList ++ key ++ ": expected ".toList ++ decimalText expected
      ++ ", got ".toList ++ decimalText actual
  | workerPool cause => "Failed to build worker pool: ".toList ++ cause
  | output cause => "IO error: ".toList ++ cause
  | json cause => "JSON serialization error: ".toList ++ cause

/-- The text of the failure that an error wraps. -/
def source? : Error → Option Text
  | fileRead _ cause => some cause
  | output cause => some cause
  | json cause => some cause
  | _ => none

end Error

end LineCensus
