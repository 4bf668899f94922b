import LineCensus.Path.Basic
import LineCensus.Report.Format

/-!
# Options of the command line

The options choose the directory to count, the format and colour of the report, the number of
workers, and how much is said about the run. Each has a long name and most have a letter; a
flag stands alone, and the others take a value, which is read here.

Arguments are bytes, and so are the paths among them. Only the value of an option has to be a text.
-/
namespace LineCensus

/-- An argument of a command line. -/
abbrev Argument := Bytes

/-- The byte before a letter, and twice before a long name. -/
@[match_pattern] def dash : UInt8 := 0x2D

/-- The byte between an option and a value that is attached to it. -/
def equalsSign : UInt8 := 0x3D

/-- What the command line asks for. -/
structure Options where
  /-- The paths given, in order. -/
  paths : List Path := []
  /-- The format of the report. -/
  format : ReportFormat := .plain
  /-- When the report has colour. -/
  colour : ColourChoice := .automatic
  /-- No progress is shown. -/
  quiet : Bool := false
  /-- How much is said about the run. -/
  verbosity : Nat := 0
  /-- The number of workers, where zero asks for one to a processor. -/
  jobs : Option Nat := none
  deriving DecidableEq, Repr, Inhabited

namespace Options

/-- The directory to count, when exactly one path is given. -/
def sourceDirectory? (options : Options) : Option Path :=
  match options.paths with
  | [path] => some path
  | _ => none

end Options

/-- How to use the command line. -/
def helpText : Text :=
  List.intercalate ['\n'] (["Count physical source lines of code and estimate effort", "",
    "Usage: sloccount [OPTIONS] [SOURCE_DIRECTORY]...", "",
    "  -f, --format <FORMAT>  Output format: text, json",
    "      --color <COLOR>    Control color output: auto, always, never",
    "  -q, --quiet            Hide the progress bar",
    "  -v, --verbose...       Increase diagnostics",
    "  -j, --jobs <N>         Number of worker threads used to count files",
    "  -h, --help             Print help",
    "  -V, --version          Print version"].map String.toList)

/-- Why a command line is not run. -/
inductive Refusal where
  /-- An option is not known. -/
  | unknownArgument
  /-- A flag is given a value. -/
  | tooManyValues
  /-- An option is given again that can be given once. -/
  | argumentConflict
  /-- A value is no text. -/
  | notText
  /-- A value does not have the form of its option. -/
  | malformedValue
  /-- A value is missing, empty, or none of those to choose from. -/
  | invalidValue
  /-- The user asks for help. -/
  | helpWanted
  /-- The user asks for the version. -/
  | versionWanted
  deriving DecidableEq, Repr

namespace Refusal

/-- The exit code of a command line that is not run: zero when the user asked for something
else, two when a mistake was made. -/
def exitCode : Refusal → Nat
  | helpWanted => 0
  | versionWanted => 0
  | _ => 2

/-- What is said to the user. -/
def message : Refusal → Text
  | unknownArgument => "error: unexpected argument".toList
  | tooManyValues => "error: unexpected value for an option that takes none".toList
  | argumentConflict => "error: an option cannot be used multiple times".toList
  | notText => "error: invalid UTF-8 was detected in one or more arguments".toList
  | malformedValue => "error: invalid value for an option".toList
  | invalidValue => "error: a value is missing or not a possible value".toList
  | helpWanted => helpText
  | versionWanted => "sloccount 0.1.0".toList

end Refusal

/-- Options that take a value. -/
inductive ValueOption where
  /-- The format of the report. -/
  | format
  /-- When the report has colour. -/
  | colour
  /-- The number of workers. -/
  | jobs
  deriving DecidableEq, Repr

/-- Options that stand alone. -/
inductive Flag where
  /-- No progress is shown. -/
  | quiet
  /-- More is said about the run. -/
  | verbose
  /-- The user asks for help. -/
  | help
  /-- The user asks for the version. -/
  | version
  deriving DecidableEq, Repr

/-- An option. -/
inductive KnownOption where
  /-- One that takes a value. -/
  | valued (option : ValueOption)
  /-- One that stands alone. -/
  | flag (flag : Flag)
  deriving DecidableEq, Repr

namespace KnownOption

/-- Every option with its long name and its letter. -/
def all : List (Text × Option Char × KnownOption) :=
  [("format".toList, some 'f', .valued .format),
    ("color".toList, none, .valued .colour),
    ("jobs".toList, some 'j', .valued .jobs),
    ("quiet".toList, some 'q', .flag .quiet),
    ("verbose".toList, some 'v', .flag .verbose),
    ("help".toList, some 'h', .flag .help),
    ("version".toList, some 'V', .flag .version)]

/-- The option whose long name is spelled by bytes. Names are not abbreviated and case matters. -/
def ofLongName? (name : Bytes) : Option KnownOption :=
  (all.find? fun entry => entry.1.utf8 = name).map fun entry => entry.2.2

/-- The option whose letter is spelled by a byte. -/
def ofLetter? (letter : UInt8) : Option KnownOption :=
  (all.find? fun entry => entry.2.1.any fun char => Text.utf8 [char] = [letter]).map fun entry =>
    entry.2.2

end KnownOption

namespace ColourChoice

/-- The choice with the given name. -/
def ofName? (name : Text) : Option ColourChoice :=
  if name = "auto".toList then some .automatic
  else if name = "always".toList then some .always
  else if name = "never".toList then some .never
  else none

end ColourChoice

/-- The number that digits of base ten denote after a number. -/
def digitsValue? (value : Nat) : Text → Option Nat
  | [] => some value
  | char :: rest =>
    if '0' ≤ char ∧ char ≤ '9' then digitsValue? (10 * value + (char.toNat - '0'.toNat)) rest
    else none

/-- The word that a text denotes: digits of base ten after an optional plus sign, within
sixty-four bits. -/
def wordOfText? (text : Text) : Option Nat :=
  let digits := if text.head? = some '+' then text.drop 1 else text
  if digits = [] then none
  else (digitsValue? 0 digits).filter fun value => value ≤ greatestWord

end LineCensus
