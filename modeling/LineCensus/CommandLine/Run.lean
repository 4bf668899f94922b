import LineCensus.CommandLine.Options
import LineCensus.Registry.Standard
import LineCensus.Scan

/-!
# Running a command line

A run scans the directory that the options name and writes the report on it. Its outcome is an
exit code, the output, and what is said about the run beside it. The exit code is zero exactly
when the report is written. How much is said, and how many workers there are, changes neither
the output nor the exit code.

The time that a run takes is not known to it. What is said about the run is kept as data, and
the time is filled in where it is written. One kind of remark is left out: the warning, from the
first level of verbosity on, that a directory met by the walk cannot be listed.
-/
namespace LineCensus

/-- What a run can observe. -/
structure System where
  /-- The files. -/
  tree : FileTree
  /-- What the output is written to. -/
  display : Display := {}
  /-- The number of processors. -/
  processors : Nat := 1

/-- Something said about a run. -/
inductive Remark where
  /-- The number of workers. -/
  | workers (count : Nat)
  /-- A file without a language. -/
  | unsupported (path : Path)
  /-- A file that cannot be read. -/
  | skipped (error : Error)
  /-- The numbers of the scan. -/
  | summary (files directories others unread : Nat)
  /-- Why there is no report. -/
  | failure (error : Error)
  deriving DecidableEq, Repr

namespace Remark

/-- The line that is written for a remark, with the time that the scan took. -/
def line (elapsed : Text) : Remark → Text
  | workers count =>
    "Counting with ".toList ++ decimalText count ++ " worker threads".toList
  | unsupported path => "Skipping unsupported file: ".toList ++ path.text
  | skipped error => "Warning: skipping ".toList ++ error.message
  | summary files directories others unread =>
    "Counted ".toList ++ decimalText files ++ " files in ".toList ++ decimalText directories
      ++ " directories (".toList ++ decimalText others ++ " unsupported, ".toList
      ++ decimalText unread ++ " unreadable) in ".toList ++ elapsed
  | failure error => "Error: ".toList ++ error.message

end Remark

/-- What a run leaves behind. -/
structure Outcome where
  /-- The exit code. -/
  exitCode : Nat
  /-- What is written as output. -/
  output : Text
  /-- What is said about the run, in order. -/
  remarks : List Remark
  deriving DecidableEq, Repr

namespace Outcome

/-- What is written beside the output, with the time that the scan took. -/
def errorOutput (outcome : Outcome) (elapsed : Text) : Text :=
  outcome.remarks.flatMap fun remark => remark.line elapsed ++ ['\n']

end Outcome

namespace Scan

/-- What is said about a scan: at the second level of verbosity the files without a language,
and from the first level on the files that cannot be read and the numbers. Directories that cannot
be listed are not spoken of. -/
def remarks (scan : Scan) (verbosity : Nat) : List Remark :=
  (if verbosity > 1 then scan.plan.unsupported.map .unsupported else []) ++
    if verbosity > 0 then
      scan.failures.map .skipped ++
        [.summary (scan.plan.files.length - scan.failures.length) scan.plan.directories
          scan.plan.unsupported.length scan.failures.length]
    else []

end Scan

namespace System

/-- There are never more workers than this. -/
def maxWorkers : Nat := 65535

/-- The number of workers for a number of jobs. -/
def workers (system : System) (jobs : Nat) : Nat :=
  min (if jobs = 0 then system.processors else jobs) maxWorkers

/-- What is said before the scan: at the second level of verbosity the number of workers, when
the options give it. -/
def openingRemarks (system : System) (options : Options) : List Remark :=
  match options.jobs with
  | some jobs => if options.verbosity > 1 then [.workers (system.workers jobs)] else []
  | none => []

/-- The output for a tally. JSON gets a line end, which the text report has already. -/
def reportText (system : System) (options : Options) (tally : Tally) : Text :=
  let report := Report.ofTally tally
  match options.format with
  | .plain => report.render .plain (options.colour.onDisplay system.display)
  | .structured => report.render .structured false ++ ['\n']

/-- Runs a command line on a directory. -/
def runOn (system : System) (options : Options) (root : Path) : Outcome :=
  let opening := system.openingRemarks options
  match Scan.ofRoot system.tree .standard root with
  | .error error => ⟨1, [], opening ++ [.failure error]⟩
  | .ok scan =>
    let remarks := opening ++ scan.remarks options.verbosity
    match scan.tally.check with
    | .error error => ⟨1, [], remarks ++ [.failure error]⟩
    | .ok () => ⟨0, system.reportText options scan.tally, remarks⟩

/-- Runs a command line. Without exactly one path, the output is how to use it. -/
def run (system : System) (options : Options) : Outcome :=
  match options.sourceDirectory? with
  | none => ⟨1, Error.usage.message ++ ['\n'], []⟩
  | some path => system.runOn options path

end System

end LineCensus
