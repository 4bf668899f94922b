import LineCensus.CommandLine.Reader
import Mathlib.Data.List.Basic

/-!
# What a command line consists of

A command line is a list of items: options with their values, flags, and paths. Which items it has
is read off its arguments one after another, and only an option without its value is remembered from
one argument to the next (`CommandItem.ofArguments`). Repetitions, values of the wrong form and what
is settled when play no part in this; they only decide whether the command line is refused.

The reader keeps to these items. After every argument that it takes, what it has settled and what
waits in it are the items so far, in their order (`CommandReader.Follows`). So what an accepted
command line asks for is the options of its items (`Options.eq_ofItems_of_ofArguments`).
-/
namespace LineCensus

/-- Something found on a command line. -/
inductive CommandItem where
  /-- An option with its value. -/
  | value (option : ValueOption) (given : Bytes)
  /-- A flag. -/
  | flag (flag : Flag)
  /-- A path. -/
  | path (path : Path)
  deriving DecidableEq, Repr

namespace CommandItem

/-- The items among the letters of an argument after one dash, and the option at its end that is
without a value. -/
def ofLetters : Bytes → List CommandItem × Option ValueOption
  | [] => ([], none)
  | letter :: rest =>
    match KnownOption.ofLetter? letter with
    | none => ([], none)
    | some (.flag given) => (flag given :: (ofLetters rest).1, (ofLetters rest).2)
    | some (.valued option) =>
      match rest with
      | [] => ([], some option)
      | first :: others => ([value option (if first = equalsSign then others else rest)], none)

/-- The item in an argument after two dashes, or the option that it leaves without a value. -/
def ofLong (argument : Bytes) : List CommandItem × Option ValueOption :=
  let value? := (argument.dropWhile (· ≠ equalsSign)).tail?
  match KnownOption.ofLongName? (argument.takeWhile (· ≠ equalsSign)), value? with
  | some (.flag given), _ => ([flag given], none)
  | some (.valued option), none => ([], some option)
  | some (.valued option), some given => ([value option given], none)
  | none, _ => ([], none)

/-- The item that an argument is which is no option: the value that is awaited, or a path. -/
def plain (awaited : Option ValueOption) (argument : Argument) : CommandItem :=
  match awaited with
  | some option => value option argument
  | none => path argument

/-- The items of arguments after an option that may be without its value. -/
def following (awaited : Option ValueOption) : List Argument → List CommandItem
  | [] => []
  | argument :: others =>
    match argument with
    | [dash, dash] => others.map path
    | dash :: dash :: long => (ofLong long).1 ++ following (ofLong long).2 others
    | dash :: letter :: letters =>
      (ofLetters (letter :: letters)).1 ++ following (ofLetters (letter :: letters)).2 others
    | _ => plain awaited argument :: following none others

/-- After two dashes alone there are only paths. -/
theorem following_separator (awaited : Option ValueOption) (others : List Argument) :
    following awaited ([dash, dash] :: others) = others.map path := rfl

/-- The items of a command line. -/
def ofArguments (arguments : List Argument) : List CommandItem := following none arguments

/-- The path that an item is. -/
def path? : CommandItem → Option Path
  | .path spelled => some spelled
  | _ => none

/-- The format that an item asks for. -/
def format? : CommandItem → Option ReportFormat
  | .value .format given => (Utf8.decode? given).bind ReportFormat.ofName?
  | _ => none

/-- The colour that an item asks for. -/
def colour? : CommandItem → Option ColourChoice
  | .value .colour given => (Utf8.decode? given).bind ColourChoice.ofName?
  | _ => none

/-- The number of workers that an item asks for. -/
def jobs? : CommandItem → Option Nat
  | .value .jobs given => (Utf8.decode? given).bind wordOfText?
  | _ => none

end CommandItem

/-- What the items of a command line ask for. -/
def Options.ofItems (items : List CommandItem) : Options where
  paths := items.filterMap CommandItem.path?
  format := (items.findSome? CommandItem.format?).getD .plain
  colour := (items.findSome? CommandItem.colour?).getD .automatic
  quiet := items.contains (.flag .quiet)
  verbosity := min (items.count (.flag .verbose)) CommandReader.maxVerbosity
  jobs := items.findSome? CommandItem.jobs?

namespace Waiting

/-- The items that wait. -/
def items : Waiting → List CommandItem
  | nothing => []
  | value _ none => []
  | value option (some given) => [.value option given]
  | paths run => run.map .path

/-- The option that waits for its value. -/
def awaited : Waiting → Option ValueOption
  | value option none => some option
  | _ => none

end Waiting

namespace CommandReader

/-- Items are settled in a reader. -/
structure Settled (reader : CommandReader) (items : List CommandItem) : Prop where
  /-- It has their paths. -/
  paths : reader.paths = items.filterMap CommandItem.path?
  /-- It has the format that they ask for. -/
  format : reader.format = items.findSome? CommandItem.format?
  /-- It has the colour that they ask for. -/
  colour : reader.colour = items.findSome? CommandItem.colour?
  /-- It has the number of workers that they ask for. -/
  jobs : reader.jobs = items.findSome? CommandItem.jobs?
  /-- It is quiet when one of them is the flag. -/
  quiet : reader.quiet = items.contains (.flag .quiet)
  /-- It counts the flags up to the greatest number. -/
  verbosity : reader.verbosity = min (items.count (.flag .verbose)) maxVerbosity

/-- A reader has taken items: some are settled, and those after them wait. -/
def Has (reader : CommandReader) (items : List CommandItem) : Prop :=
  ∃ settled, reader.Settled settled ∧ items = settled ++ reader.waiting.items

/-- A reader in which nothing waits has become another by settling an item. -/
structure Adds (reader next : CommandReader) (item : CommandItem) : Prop where
  /-- A path comes after the others. -/
  paths : next.paths = reader.paths ++ item.path?.toList
  /-- A format that is there stays. -/
  format : next.format = reader.format.or item.format?
  /-- A colour that is there stays. -/
  colour : next.colour = reader.colour.or item.colour?
  /-- A number of workers that is there stays. -/
  jobs : next.jobs = reader.jobs.or item.jobs?
  /-- The quiet flag is remembered. -/
  quiet : next.quiet = (reader.quiet || decide (item = .flag .quiet))
  /-- The verbose flag is counted. -/
  verbosity : next.verbosity =
    if item = .flag .verbose then min (reader.verbosity + 1) maxVerbosity else reader.verbosity
  /-- Nothing waits. -/
  free : next.waiting = .nothing
  /-- Further arguments are paths as before. -/
  onlyPaths : next.onlyPaths = reader.onlyPaths

/-- A reader has become another by taking items, which may leave an option without its value. -/
structure Follows (reader next : CommandReader) (items : List CommandItem)
    (awaited : Option ValueOption) : Prop where
  /-- The items come after those that it had. -/
  takes : ∀ before, reader.Has before → next.Has (before ++ items)
  /-- The option waits for its value. -/
  waits : next.waiting.awaited = awaited
  /-- Further arguments are paths as before. -/
  onlyPaths : next.onlyPaths = reader.onlyPaths

variable {reader between next : CommandReader} {option : ValueOption} {items : List CommandItem}

/-- A result of two steps is one of the second step after the first. -/
theorem exists_of_bind {α β : Type} {first : Except Refusal α} {second : α → Except Refusal β}
    {result : β} (accepted : (first >>= second) = .ok result) :
    ∃ middle, first = .ok middle ∧ second middle = .ok result := by
  cases first with
  | error refusal => cases accepted
  | ok middle => exact ⟨middle, rfl, accepted⟩

/-- A value that is accepted is a text with the meaning that is found. -/
theorem bind_decode?_of_denoted {α : Type} {ofText? : Text → Option α}
    {unread meaningless : Refusal} {value : Bytes} {meaning : α}
    (accepted : denoted ofText? unread meaningless value = .ok meaning) :
    (Utf8.decode? value).bind ofText? = some meaning := by
  unfold denoted at accepted
  split at accepted
  · cases accepted
  · next text read =>
    rw [read, Option.bind_some]
    split at accepted
    · next found => cases accepted; exact found
    · cases accepted

/-- Items are taken one after another. -/
theorem Follows.trans {front back : List CommandItem} {awaited later : Option ValueOption}
    (first : reader.Follows between front awaited) (second : between.Follows next back later) :
    reader.Follows next (front ++ back) later where
  takes before has := List.append_assoc before front back ▸ second.takes _ (first.takes before has)
  waits := second.waits
  onlyPaths := second.onlyPaths.trans first.onlyPaths

/-- Where nothing waits, the items that are taken are settled. -/
theorem has_iff_settled (free : reader.waiting = .nothing) :
    reader.Has items ↔ reader.Settled items := by
  unfold Has
  rw [free]
  simp [Waiting.items]

/-- An item that a reader settles comes after those that are settled. -/
theorem Adds.settled {item : CommandItem} (adds : reader.Adds next item)
    (before : reader.Settled items) : next.Settled (items ++ [item]) where
  paths := by rw [adds.paths, before.paths]; cases found : item.path? <;> simp [found]
  format := by rw [adds.format, before.format]; simp
  colour := by rw [adds.colour, before.colour]; simp
  jobs := by rw [adds.jobs, before.jobs]; simp
  quiet := by rw [adds.quiet, before.quiet]; simp [eq_comm]
  verbosity := by
    rw [adds.verbosity, before.verbosity, List.count_append]
    split
    · next same => subst same; simp; omega
    · next other => simp [other]

/-- An item that a reader settles is taken. -/
theorem Adds.follows {item : CommandItem} (adds : reader.Adds next item)
    (free : reader.waiting = .nothing) : reader.Follows next [item] none where
  takes before has :=
    (has_iff_settled adds.free).mpr (adds.settled ((has_iff_settled free).mp has))
  waits := by rw [adds.free]; rfl
  onlyPaths := adds.onlyPaths

/-- Setting an option settles the option with its value. -/
theorem assign_adds {value : Bytes} (free : reader.waiting = .nothing)
    (accepted : reader.assign option value = .ok next) :
    reader.Adds next (.value option value) := by
  unfold assign at accepted
  cases option <;> simp only at accepted <;> split at accepted
  -- an option is set where it was unset and its value has a meaning
  case format.isFalse unset | colour.isFalse unset | jobs.isFalse unset =>
    obtain ⟨meaning, denotes, assigned⟩ := exists_of_bind accepted
    have found := bind_decode?_of_denoted denotes
    cases assigned
    constructor <;>
      simp_all [CommandItem.path?, CommandItem.format?, CommandItem.colour?, CommandItem.jobs?]
  all_goals cases accepted

/-- What is settled does not depend on what waits, nor on what further arguments are. -/
theorem Settled.has (before : reader.Settled items) (waiting : Waiting) (onlyPaths : Bool) :
    { reader with waiting, onlyPaths }.Has (items ++ waiting.items) :=
  ⟨items, ⟨before.paths, before.format, before.colour, before.jobs, before.quiet,
    before.verbosity⟩, rfl⟩

/-- Paths ask for nothing else. -/
theorem Settled.append_paths (before : reader.Settled items) (run : List Path) :
    { reader with waiting := .nothing, paths := reader.paths ++ run }.Settled
      (items ++ run.map CommandItem.path) where
  paths := by simp [before.paths, List.filterMap_map, Function.comp_def, CommandItem.path?]
  format := by
    have unasked : (run.map CommandItem.path).findSome? CommandItem.format? = none := by
      simp [List.findSome?_eq_none_iff, CommandItem.format?]
    rw [List.findSome?_append, unasked, Option.or_none, before.format]
  colour := by
    have unasked : (run.map CommandItem.path).findSome? CommandItem.colour? = none := by
      simp [List.findSome?_eq_none_iff, CommandItem.colour?]
    rw [List.findSome?_append, unasked, Option.or_none, before.colour]
  jobs := by
    have unasked : (run.map CommandItem.path).findSome? CommandItem.jobs? = none := by
      simp [List.findSome?_eq_none_iff, CommandItem.jobs?]
    rw [List.findSome?_append, unasked, Option.or_none, before.jobs]
  quiet := by simp [before.quiet]
  verbosity := by
    have uncounted : (run.map CommandItem.path).count (.flag .verbose) = 0 := by
      simp [List.count_eq_zero]
    simp [before.verbosity, uncounted]

/-- What waits is settled. -/
theorem settle_follows (accepted : reader.settle = .ok next) :
    reader.Follows next [] none ∧ next.waiting = .nothing := by
  unfold settle at accepted
  dsimp only at accepted
  split at accepted
  · next waits =>
    cases accepted
    refine ⟨⟨fun items has => ?_, rfl, rfl⟩, rfl⟩
    exact ((has_iff_settled waits).mp has).has .nothing reader.onlyPaths
  · cases accepted
  · next option value waits =>
    have adds := assign_adds rfl accepted
    refine ⟨⟨fun items has => ?_, by rw [adds.free]; rfl, adds.onlyPaths⟩, adds.free⟩
    obtain ⟨settled, before, rfl⟩ := has
    have unwaiting := (has_iff_settled rfl).mp (before.has .nothing reader.onlyPaths)
    rw [Waiting.items, List.append_nil] at unwaiting
    rw [waits, List.append_nil]
    exact (has_iff_settled adds.free).mpr (adds.settled unwaiting)
  · next run waits =>
    split at accepted
    · cases accepted
    · cases accepted
      refine ⟨⟨fun items has => ?_, rfl, rfl⟩, rfl⟩
      obtain ⟨settled, before, rfl⟩ := has
      rw [waits, List.append_nil]
      exact (has_iff_settled rfl).mpr (before.append_paths run)

/-- A flag is taken. -/
theorem takeFlag_follows {flag : Flag} (accepted : reader.takeFlag flag = .ok next) :
    reader.Follows next [.flag flag] none := by
  obtain ⟨settled, settles, taken⟩ := exists_of_bind accepted
  obtain ⟨follows, free⟩ := settle_follows settles
  suffices adds : settled.Adds next (.flag flag) from follows.trans (adds.follows free)
  cases flag with
  | quiet =>
    dsimp only at taken
    split at taken
    · cases taken
    · cases taken
      constructor <;> simp [CommandItem.path?, CommandItem.format?, CommandItem.colour?,
        CommandItem.jobs?, free]
  | verbose =>
    cases taken
    constructor <;> simp [CommandItem.path?, CommandItem.format?, CommandItem.colour?,
      CommandItem.jobs?, free]
  | help => cases taken
  | version => cases taken

/-- An option is taken with the value attached to it. -/
theorem takeValue_follows {value : Bytes} (accepted : reader.takeValue option value = .ok next) :
    reader.Follows next [.value option value] none := by
  obtain ⟨settled, settles, taken⟩ := exists_of_bind accepted
  obtain ⟨follows, free⟩ := settle_follows settles
  exact follows.trans ((assign_adds free taken).follows free)

/-- An option is left without its value. -/
theorem awaitValue_follows (accepted : reader.awaitValue option = .ok next) :
    reader.Follows next [] (some option) := by
  obtain ⟨settled, settles, taken⟩ := exists_of_bind accepted
  obtain ⟨follows, free⟩ := settle_follows settles
  cases taken
  refine ⟨fun before has => ?_, rfl, follows.onlyPaths⟩
  have holds := (has_iff_settled free).mp (follows.takes before has)
  simpa [Waiting.items] using holds.has (.value option none) settled.onlyPaths

/-- A path is taken. -/
theorem takePath_follows {path : Path} (accepted : reader.takePath path = .ok next) :
    reader.Follows next [.path path] none := by
  unfold takePath at accepted
  split at accepted
  · next run waits =>
    cases accepted
    refine ⟨fun before has => ?_, rfl, rfl⟩
    obtain ⟨items, holds, rfl⟩ := has
    simpa [waits, Waiting.items] using holds.has (.paths (run ++ [path])) reader.onlyPaths
  · obtain ⟨settled, settles, taken⟩ := exists_of_bind accepted
    obtain ⟨follows, free⟩ := settle_follows settles
    cases taken
    refine ⟨fun before has => ?_, rfl, follows.onlyPaths⟩
    have holds := (has_iff_settled free).mp (follows.takes before has)
    simpa [Waiting.items] using holds.has (.paths [path]) settled.onlyPaths

/-- The letters of an argument are taken. -/
theorem takeLetters_follows {letters : Bytes}
    (accepted : reader.takeLetters letters = .ok next)
    (ready : letters = [] → reader.waiting.awaited = none) :
    reader.Follows next (CommandItem.ofLetters letters).1 (CommandItem.ofLetters letters).2 := by
  fun_induction takeLetters reader letters with
  | case1 reader =>
    cases accepted
    exact ⟨fun before has => by simpa [CommandItem.ofLetters] using has, ready rfl, rfl⟩
  | case2 => cases accepted
  | case3 reader letter rest flag known step =>
    obtain ⟨between, taken, others⟩ := exists_of_bind accepted
    have first := takeFlag_follows taken
    unfold CommandItem.ofLetters
    rw [known]
    exact first.trans (step between others fun _ => first.waits)
  | case4 reader letter option known =>
    unfold CommandItem.ofLetters
    rw [known]
    exact awaitValue_follows accepted
  | case5 reader letter option known first others =>
    unfold CommandItem.ofLetters
    rw [known]
    exact takeValue_follows accepted

/-- An argument after two dashes is taken. -/
theorem takeLong_follows {argument : Bytes} (accepted : reader.takeLong argument = .ok next) :
    reader.Follows next (CommandItem.ofLong argument).1 (CommandItem.ofLong argument).2 := by
  unfold takeLong at accepted
  unfold CommandItem.ofLong
  dsimp only at accepted ⊢
  split at accepted
  · cases accepted
  · next flag known unvalued =>
    rw [known]
    exact takeFlag_follows accepted
  · cases accepted
  · next option known unvalued =>
    rw [known, unvalued]
    exact awaitValue_follows accepted
  · next option value known valued =>
    rw [known, valued]
    exact takeValue_follows accepted

/-- An argument that is no option is taken: as the value that is waited for, or as a path. -/
theorem takePlain_follows {argument : Argument} (accepted : reader.takePlain argument = .ok next) :
    reader.Follows next [.plain reader.waiting.awaited argument] none := by
  unfold takePlain at accepted
  split at accepted
  · next option waits =>
    cases accepted
    refine ⟨fun before has => ?_, rfl, rfl⟩
    obtain ⟨items, holds, rfl⟩ := has
    simpa [waits, Waiting.items, Waiting.awaited, CommandItem.plain] using
      holds.has (.value option (some argument)) reader.onlyPaths
  · next unvalued =>
    have none_awaited : reader.waiting.awaited = none := by
      unfold Waiting.awaited
      split
      · next option waits => exact absurd waits (unvalued option)
      · rfl
    rw [none_awaited]
    exact takePath_follows accepted

/-- The items of the arguments after a reader. -/
def itemsAfter (reader : CommandReader) (arguments : List Argument) : List CommandItem :=
  if reader.onlyPaths then arguments.map CommandItem.path
  else CommandItem.following reader.waiting.awaited arguments

/-- An argument that is taken gives its items, and the others give theirs after it. -/
theorem take_has {argument : Argument} (others : List Argument)
    (accepted : reader.take argument = .ok next) (has : reader.Has items) :
    ∃ taken, next.Has (items ++ taken) ∧
      reader.itemsAfter (argument :: others) = taken ++ next.itemsAfter others := by
  unfold take at accepted
  split at accepted
  · next only =>
    have follows := takePath_follows accepted
    exact ⟨_, follows.takes _ has, by simp [itemsAfter, follows.onlyPaths, only]⟩
  · next more =>
    -- a reader that takes an option or a plain argument takes further options
    have rest : ∀ {taken awaited}, reader.Follows next taken awaited →
        next.itemsAfter others = CommandItem.following awaited others := fun follows => by
      rw [itemsAfter, follows.onlyPaths, if_neg more, follows.waits]
    rw [itemsAfter, if_neg more]
    split at accepted
    · cases accepted
      obtain ⟨settled, before, rfl⟩ := has
      exact ⟨[], by simpa using before.has reader.waiting true,
        CommandItem.following_separator _ others⟩
    · next long named =>
      have follows := takeLong_follows accepted
      refine ⟨_, follows.takes _ has, ?_⟩
      rw [rest follows, CommandItem.following]
      exact named
    · next letter letters more single =>
      have follows := takeLetters_follows accepted nofun
      refine ⟨_, follows.takes _ has, ?_⟩
      rw [rest follows, CommandItem.following]
      · exact more
      · exact single
    · next unfinished unnamed unlettered =>
      have follows := takePlain_follows accepted
      refine ⟨_, follows.takes _ has, ?_⟩
      rw [rest follows, CommandItem.following]
      · rfl
      · exact unfinished
      · exact unnamed
      · exact unlettered

/-- After all arguments, the reader has the items of the command line. -/
theorem foldlM_take_has {arguments : List Argument} {last : CommandReader}
    (accepted : arguments.foldlM take reader = .ok last) (has : reader.Has items) :
    last.Has (items ++ reader.itemsAfter arguments) := by
  induction arguments generalizing reader items with
  | nil =>
    cases accepted
    simpa [itemsAfter, CommandItem.following] using has
  | cons argument others step =>
    rw [List.foldlM_cons] at accepted
    obtain ⟨next, taken, rest⟩ := exists_of_bind accepted
    obtain ⟨found, nextHas, same⟩ := take_has others taken has
    rw [same, ← List.append_assoc]
    exact step rest nextHas

/-- A reader that has settled items asks for what they ask for. -/
theorem Settled.options (settled : reader.Settled items) :
    reader.options = Options.ofItems items := by
  unfold CommandReader.options Options.ofItems
  rw [settled.paths, settled.format, settled.colour, settled.jobs, settled.quiet,
    settled.verbosity]

end CommandReader

/-- What an accepted command line asks for is what its items ask for. -/
theorem Options.eq_ofItems_of_ofArguments {arguments : List Argument} {options : Options}
    (accepted : ofArguments arguments = .ok options) :
    options = ofItems (CommandItem.ofArguments arguments) := by
  obtain ⟨last, read, rest⟩ := CommandReader.exists_of_bind accepted
  obtain ⟨settled, settles, same⟩ := CommandReader.exists_of_bind rest
  cases same
  have start : CommandReader.Has {} [] := ⟨[], ⟨rfl, rfl, rfl, rfl, rfl, rfl⟩, rfl⟩
  have has := CommandReader.foldlM_take_has read start
  obtain ⟨follows, free⟩ := CommandReader.settle_follows settles
  have holds := (CommandReader.has_iff_settled free).mp (follows.takes _ has)
  rw [List.append_nil, List.nil_append] at holds
  exact holds.options

-- bytes that are no text can be a path, but not the value of an option
example : Options.ofArguments [[0xFF]] = .ok { paths := [[0xFF]] } ∧
    Options.ofArguments [Text.utf8 "--format".toList, [0xFF]] = .error .notText := ⟨rfl, rfl⟩

end LineCensus
