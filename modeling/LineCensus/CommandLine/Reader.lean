import LineCensus.CommandLine.Options

/-!
# Reading the command line

Arguments are read from left to right, and the first mistake is the answer. A value may be
attached to its option or be the next argument. Attached values and flags are settled at
once. A value that is an argument of its own waits, and so does a run of paths: what waits is
settled when the next option or another kind of argument is met, or at the end. A mistake in
the name of an option, or a value given to a flag, is answered without settling what waits.

When an option is settled, a missing value is found before a repeated option, and a repeated
option before a value that is no text or has the wrong form.
-/
namespace LineCensus

/-- An argument that waits to be settled. -/
inductive Waiting where
  /-- Nothing waits. -/
  | nothing
  /-- An option waits, with its value if one was given. -/
  | value (option : ValueOption) (given : Option Argument)
  /-- A run of paths waits. -/
  | paths (run : List Path)
  deriving DecidableEq, Repr

/-- The command line as far as it is read. -/
structure CommandReader where
  /-- The format, once it is given. -/
  format : Option ReportFormat := none
  /-- The colour, once it is given. -/
  colour : Option ColourChoice := none
  /-- The number of workers, once it is given. -/
  jobs : Option Nat := none
  /-- The quiet flag is given. -/
  quiet : Bool := false
  /-- How often the verbose flag is given. -/
  verbosity : Nat := 0
  /-- The paths settled. -/
  paths : List Path := []
  /-- What waits. -/
  waiting : Waiting := .nothing
  /-- Every further argument is a path. -/
  onlyPaths : Bool := false
  deriving DecidableEq, Repr

/-- What a value denotes, with the refusals of a value that is no text and of a text that denotes
nothing. -/
def denoted {α : Type} (ofText? : Text → Option α) (unread meaningless : Refusal) (value : Bytes) :
    Except Refusal α :=
  match Utf8.decode? value with
  | none => .error unread
  | some text =>
    match ofText? text with
    | some meaning => .ok meaning
    | none => .error meaningless

namespace CommandReader

/-- The verbose flag is not counted further than this. -/
def maxVerbosity : Nat := 255

/-- Sets an option that is not set to what a value denotes. -/
def assign (reader : CommandReader) (option : ValueOption) (value : Bytes) :
    Except Refusal CommandReader :=
  match option with
  | .format =>
    if reader.format.isSome then .error .argumentConflict
    else do
      let format ← denoted ReportFormat.ofName? .notText .malformedValue value
      .ok { reader with format := some format }
  | .colour =>
    if reader.colour.isSome then .error .argumentConflict
    else do
      let colour ← denoted ColourChoice.ofName? .invalidValue .invalidValue value
      .ok { reader with colour := some colour }
  | .jobs =>
    if reader.jobs.isSome then .error .argumentConflict
    else do
      let jobs ← denoted wordOfText? .notText .malformedValue value
      .ok { reader with jobs := some jobs }

/-- Settles what waits. -/
def settle (reader : CommandReader) : Except Refusal CommandReader :=
  let free := { reader with waiting := .nothing }
  match reader.waiting with
  | .nothing => .ok free
  | .value _ none => .error .invalidValue
  | .value option (some value) => free.assign option value
  | .paths run =>
    if [] ∈ run then .error .invalidValue else .ok { free with paths := free.paths ++ run }

/-- Takes a flag. -/
def takeFlag (reader : CommandReader) (flag : Flag) : Except Refusal CommandReader := do
  let reader ← reader.settle
  match flag with
  | .quiet =>
    if reader.quiet then .error .argumentConflict else .ok { reader with quiet := true }
  | .verbose => .ok { reader with verbosity := min (reader.verbosity + 1) maxVerbosity }
  | .help => .error .helpWanted
  | .version => .error .versionWanted

/-- Takes an option with the value attached to it. -/
def takeValue (reader : CommandReader) (option : ValueOption) (value : Bytes) :
    Except Refusal CommandReader := do
  let reader ← reader.settle
  reader.assign option value

/-- Takes an option whose value is to follow. -/
def awaitValue (reader : CommandReader) (option : ValueOption) :
    Except Refusal CommandReader := do
  let reader ← reader.settle
  .ok { reader with waiting := .value option none }

/-- Takes a path. -/
def takePath (reader : CommandReader) (path : Path) : Except Refusal CommandReader :=
  match reader.waiting with
  | .paths run => .ok { reader with waiting := .paths (run ++ [path]) }
  | _ => do
    let reader ← reader.settle
    .ok { reader with waiting := .paths [path] }

/-- Takes the letters of an argument after one dash. The rest of the argument after a letter
that takes a value is the value, without an equals sign before it. -/
def takeLetters (reader : CommandReader) : Bytes → Except Refusal CommandReader
  | [] => .ok reader
  | letter :: rest =>
    match KnownOption.ofLetter? letter with
    | none => .error .unknownArgument
    | some (.flag flag) => do
      let reader ← reader.takeFlag flag
      reader.takeLetters rest
    | some (.valued option) =>
      match rest with
      | [] => reader.awaitValue option
      | first :: others => reader.takeValue option (if first = equalsSign then others else rest)

/-- Takes an argument after two dashes: a long name, and the value after an equals sign. -/
def takeLong (reader : CommandReader) (argument : Bytes) : Except Refusal CommandReader :=
  let name := argument.takeWhile (· ≠ equalsSign)
  let value? := (argument.dropWhile (· ≠ equalsSign)).tail?
  match KnownOption.ofLongName? name, value? with
  | none, _ => .error .unknownArgument
  | some (.flag flag), none => reader.takeFlag flag
  | some (.flag _), some _ => .error .tooManyValues
  | some (.valued option), none => reader.awaitValue option
  | some (.valued option), some value => reader.takeValue option value

/-- Takes an argument that is no option: the value that is waited for, or a path. -/
def takePlain (reader : CommandReader) (argument : Argument) : Except Refusal CommandReader :=
  match reader.waiting with
  | .value option none => .ok { reader with waiting := .value option (some argument) }
  | _ => reader.takePath argument

/-- Takes one argument. A single dash is no option, and two dashes make every further
argument a path. -/
def take (reader : CommandReader) (argument : Argument) : Except Refusal CommandReader :=
  if reader.onlyPaths then reader.takePath argument
  else match argument with
    | [dash, dash] => .ok { reader with onlyPaths := true }
    | dash :: dash :: long => reader.takeLong long
    | dash :: letter :: others => reader.takeLetters (letter :: others)
    | _ => reader.takePlain argument

/-- What a command line asks for that is read to its end. -/
def options (reader : CommandReader) : Options where
  paths := reader.paths
  format := reader.format.getD .plain
  colour := reader.colour.getD .automatic
  quiet := reader.quiet
  verbosity := reader.verbosity
  jobs := reader.jobs

end CommandReader

/-- Reads a command line. -/
def Options.ofArguments (arguments : List Argument) : Except Refusal Options := do
  let reader ← arguments.foldlM CommandReader.take {}
  let reader ← reader.settle
  .ok reader.options

end LineCensus
