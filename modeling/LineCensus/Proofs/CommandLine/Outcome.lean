import LineCensus.CommandLine.Run
import LineCensus.Proofs.CommandLine.Items
import LineCensus.Proofs.Scan.Schedule
import LineCensus.Proofs.Scan.Tabulation

/-!
# What a command line leads to

A command line that is accepted succeeds exactly when it gives one path, which can be any bytes, and
a directory is there. Then the output is the report on the scan of this directory in the format
asked for (`System.Writes`); no file below it, readable or not, and no check of the tally can make
the run fail (`System.Answers`).

How many workers count the files is not seen in the output, nor is what is said about the run. The
tally of the scan is the one that every schedule of merging gives. Two command lines that differ
only in options about diagnostics have the same output and the same exit code, and those that ask
for JSON may differ in colour too (`System.run_answers_ofArguments`).
-/
namespace LineCensus

namespace CommandItem

/-- An item is about diagnostics: how much is said about the run, and how many workers there are. -/
def isDiagnostic : CommandItem → Bool
  | .flag .quiet => true
  | .flag .verbose => true
  | .value .jobs _ => true
  | _ => false

/-- An item is about colour. -/
def isColour : CommandItem → Bool
  | .value .colour _ => true
  | _ => false

/-- What items ask for can be read where items are left out that do not ask for it. -/
theorem findSome?_filter {α : Type} {ask : CommandItem → Option α} {keep : CommandItem → Bool}
    (unasked : ∀ item, keep item = false → ask item = none) (items : List CommandItem) :
    (items.filter keep).findSome? ask = items.findSome? ask := by
  induction items with
  | nil => rfl
  | cons item others step =>
    rw [List.findSome?_cons, List.filter_cons]
    split
    · rw [List.findSome?_cons, step]
    · next left_out => rw [step, unasked item (by simpa using left_out)]

/-- The paths can be read where items are left out that are no paths. -/
theorem filterMap_path_filter {keep : CommandItem → Bool}
    (unasked : ∀ item, keep item = false → item.path? = none) (items : List CommandItem) :
    (items.filter keep).filterMap path? = items.filterMap path? := by
  rw [List.filterMap_filter]
  refine List.filterMap_congr fun item _ => ?_
  cases kept : keep item with
  | true => rfl
  | false => exact (unasked item kept).symm

end CommandItem

/-- A text report has colour if this is asked for, or if the choice is left to a terminal on which
colour is not unwanted. -/
theorem ColourChoice.onDisplay_iff (choice : ColourChoice) (display : Display) :
    choice.onDisplay display = true ↔ choice = .always ∨ choice = .automatic ∧
      display.terminal = true ∧ display.colourUnwanted = false := by
  cases choice with
  | automatic => simp [onDisplay, and_comm]
  | always => simp [onDisplay]
  | never => simp [onDisplay]

namespace System

/-- A text is the output for a tally: the report on it in the format asked for. -/
inductive Writes (system : System) (options : Options) (tally : Tally) : Text → Prop where
  /-- The text report. It has colour if this is asked for, or if the choice is left to a terminal on
  which colour is not unwanted. -/
  | plain (format : options.format = .plain) (coloured : Bool)
      (colour : coloured = true ↔ options.colour = .always ∨ options.colour = .automatic ∧
        system.display.terminal = true ∧ system.display.colourUnwanted = false) :
      Writes system options tally ((Report.ofTally tally).plain coloured)
  /-- JSON, with a line end. -/
  | structured (format : options.format = .structured) :
      Writes system options tally ((Report.ofTally tally).structured ++ ['\n'])

/-- The outcome of a run is the answer to its options. -/
structure Answers (system : System) (options : Options) (outcome : Outcome) : Prop where
  /-- The run succeeds when one path is given and it leads to a directory. -/
  succeeds_iff : outcome.exitCode = 0 ↔ ∃ path entries, options.paths = [path] ∧
    system.tree.find? path = some (.directory entries)
  /-- Without one path, the output is how to use the command line. -/
  usage : options.paths.length ≠ 1 →
    outcome.exitCode = 1 ∧ outcome.output = "Usage: sloccount <source_directory>\n".toList
  /-- Without a directory at the path, there is no output. -/
  notFound : ∀ path, options.paths = [path] →
    (∀ entries, system.tree.find? path ≠ some (.directory entries)) →
    outcome.exitCode = 1 ∧ outcome.output = []
  /-- With a directory at the path, the output is the report on the scan of it in the format asked
  for, with a line end after JSON. The check passes, and the tally is that of every schedule. -/
  reported : ∀ path entries, options.paths = [path] →
    system.tree.find? path = some (.directory entries) →
    ∃ scan, Scan.ofRoot system.tree .standard path = .ok scan ∧ scan.tally.check = .ok () ∧
      outcome.exitCode = 0 ∧ system.Writes options scan.tally outcome.output ∧
      ∀ schedule : MergeSchedule, schedule.leaves = scan.plan.files.map system.tree.tallyFile →
        Tally.ofTopDirectory.merge schedule.result = scan.tally

/-- Two command lines ask for the same report of what they see: they differ only in items about
diagnostics, or they ask for JSON and differ also in items about colour. -/
inductive AskAlike (system other : System) (items others : List CommandItem) : Prop where
  /-- They differ in diagnostics. -/
  | diagnostics (display : other.display = system.display)
      (same : others.filter (fun item => !item.isDiagnostic) =
        items.filter fun item => !item.isDiagnostic)
  /-- They ask for JSON and differ in diagnostics and colour. -/
  | structured (format : (Options.ofItems items).format = .structured)
      (same : others.filter (fun item => !item.isDiagnostic && !item.isColour) =
        items.filter fun item => !item.isDiagnostic && !item.isColour)

section Laws

variable {system other : System} {options others : Options}

/-- Without a directory at a path, there is no plan. -/
theorem plan_of_no_directory {tree : FileTree} {registry : Registry} {root : Path}
    (absent : ∀ entries, tree.find? root ≠ some (.directory entries)) :
    tree.plan registry root = .error (.rootNotFound root) := by
  have unlisted : tree.list? root = none := by
    unfold FileTree.list?
    split
    · next entries found => exact absurd found (absent entries)
    · rfl
  unfold FileTree.plan FileTree.walk?
  rw [unlisted]
  rfl

/-- The tally of planned files is that of every schedule that merges the tallies of the files. -/
theorem merge_result_of_leaves {tree : FileTree} {files : List SourceFile}
    {schedule : MergeSchedule} (leaves : schedule.leaves = files.map tree.tallyFile) :
    Tally.ofTopDirectory.merge schedule.result = Scan.tallyFiles tree files := by
  have ofFile : ∀ tally ∈ schedule.leaves, tally.directories = Tally.tabulate tally.cellLog := by
    rw [leaves]
    intro tally inside
    obtain ⟨file, _, rfl⟩ := List.mem_map.mp inside
    exact Tally.OfFile.tabulate_cellLog ⟨_, _, _, tree.tallyFile_eq_single file⟩
  have inOrder := Tally.directories_foldl_merge ofFile Tally.empty
  rw [List.map_id'] at inOrder
  unfold Scan.tallyFiles
  refine Tally.merge_congr _ ?_
  rw [schedule.directories_result ofFile, ← leaves, inOrder]
  rfl

/-- A run on a directory writes the report on the scan of it. -/
theorem runOn_of_directory (system : System) (options : Options) {root : Path} {entries : Entries}
    (isDirectory : system.tree.find? root = some (.directory entries)) :
    ∃ scan, Scan.ofRoot system.tree .standard root = .ok scan ∧ scan.tally.check = .ok () ∧
      (system.runOn options root).exitCode = 0 ∧
      (system.runOn options root).output = system.reportText options scan.tally := by
  obtain ⟨plan, planned, _⟩ := Scan.plan_of_directory system.tree .standard isDirectory
  obtain ⟨scan, scanned, tallied⟩ := Scan.ofRoot_of_plan planned
  have checked : scan.tally.check = .ok () := by
    rw [tallied]
    exact (Scan.tallyFiles_recorded system.tree plan.files).bookkept.check_ok
  refine ⟨scan, scanned, checked, ?_⟩
  unfold runOn
  rw [scanned]
  dsimp only
  rw [checked]
  exact ⟨rfl, rfl⟩

/-- A run without a directory fails and writes nothing. -/
theorem runOn_of_no_directory (system : System) (options : Options) {root : Path}
    (absent : ∀ entries, system.tree.find? root ≠ some (.directory entries)) :
    (system.runOn options root).exitCode = 1 ∧ (system.runOn options root).output = [] := by
  unfold runOn Scan.ofRoot
  rw [plan_of_no_directory absent]
  exact ⟨rfl, rfl⟩

/-- A run without one path says how to use the command line. -/
theorem run_of_paths_ne_one (several : options.paths.length ≠ 1) :
    system.run options = ⟨1, "Usage: sloccount <source_directory>\n".toList, []⟩ := by
  have unnamed : options.sourceDirectory? = none := by
    unfold Options.sourceDirectory?
    split
    · next path given => exact absurd (congrArg List.length given) several
    · rfl
  unfold run
  rw [unnamed]
  rfl

/-- A run with one path is one on it. -/
theorem run_of_path {path : Path} (given : options.paths = [path]) :
    system.run options = system.runOn options path := by
  unfold run Options.sourceDirectory?
  rw [given]

/-- The output for a tally is the report on it in the format asked for. -/
theorem writes_reportText (system : System) (options : Options) (tally : Tally) :
    system.Writes options tally (system.reportText options tally) := by
  unfold reportText Report.render
  cases format : options.format with
  | plain => exact .plain format _ (options.colour.onDisplay_iff system.display)
  | structured => exact .structured format

/-- A run is the answer to its options. -/
theorem run_answers (system : System) (options : Options) :
    system.Answers options (system.run options) := by
  have found : ∀ path entries, options.paths = [path] →
      system.tree.find? path = some (.directory entries) →
      (system.run options).exitCode = 0 := by
    intro path entries given isDirectory
    obtain ⟨_, _, _, success, _⟩ := system.runOn_of_directory options isDirectory
    rw [run_of_path given, success]
  constructor
  case usage =>
    intro several
    rw [run_of_paths_ne_one several]
    exact ⟨rfl, rfl⟩
  case notFound =>
    intro path given absent
    rw [run_of_path given]
    exact system.runOn_of_no_directory options absent
  case reported =>
    intro path entries given isDirectory
    obtain ⟨scan, scanned, checked, success, output⟩ :=
      system.runOn_of_directory options isDirectory
    rw [run_of_path given]
    refine ⟨scan, scanned, checked, success, ?_, fun schedule leaves => ?_⟩
    · rw [output]
      exact system.writes_reportText options scan.tally
    · rw [merge_result_of_leaves leaves, Scan.tally_ofRoot scanned]
  case succeeds_iff =>
    refine ⟨fun success => ?_, fun ⟨path, entries, given, isDirectory⟩ =>
      found path entries given isDirectory⟩
    by_cases one : options.paths.length = 1
    · obtain ⟨path, given⟩ := List.length_eq_one_iff.mp one
      by_contra missing
      have absent : ∀ entries, system.tree.find? path ≠ some (.directory entries) :=
        fun entries isDirectory => missing ⟨path, entries, given, isDirectory⟩
      rw [run_of_path given, (system.runOn_of_no_directory options absent).1] at success
      cases success
    · rw [run_of_paths_ne_one one] at success
      cases success

/-- A run on a directory sees of its options the format, and the colour of a text report. -/
theorem run_congr (tree : other.tree = system.tree) (paths : others.paths = options.paths)
    (format : others.format = options.format)
    (colour : options.format = .plain →
      others.colour.onDisplay other.display = options.colour.onDisplay system.display) :
    (other.run others).output = (system.run options).output ∧
      (other.run others).exitCode = (system.run options).exitCode := by
  have written : ∀ tally, other.reportText others tally = system.reportText options tally := by
    intro tally
    unfold reportText
    rw [format]
    cases shape : options.format with
    | plain => rw [colour shape]
    | structured => rfl
  by_cases one : options.paths.length = 1
  · obtain ⟨path, given⟩ := List.length_eq_one_iff.mp one
    rw [run_of_path given, run_of_path (paths.trans given)]
    by_cases isDirectory : ∃ entries, system.tree.find? path = some (.directory entries)
    · obtain ⟨entries, isDirectory⟩ := isDirectory
      obtain ⟨scan, scanned, _, success, output⟩ := system.runOn_of_directory options isDirectory
      obtain ⟨scan', scanned', _, success', output'⟩ :=
        other.runOn_of_directory others (tree ▸ isDirectory)
      rw [tree, scanned] at scanned'
      cases scanned'
      exact ⟨by rw [output, output', written], by rw [success, success']⟩
    · have absent := not_exists.mp isDirectory
      have fails := system.runOn_of_no_directory options absent
      have fails' := other.runOn_of_no_directory others (tree ▸ absent)
      exact ⟨by rw [fails.2, fails'.2], by rw [fails.1, fails'.1]⟩
  · rw [run_of_paths_ne_one one, run_of_paths_ne_one (paths ▸ one)]
    exact ⟨rfl, rfl⟩

/-- Items that are left out do not ask for a path or a format when they are about diagnostics or
colour. -/
theorem ofItems_congr {keep : CommandItem → Bool} {items otherItems : List CommandItem}
    (kept : ∀ item, keep item = false → item.isDiagnostic ∨ item.isColour)
    (same : otherItems.filter keep = items.filter keep) :
    (Options.ofItems otherItems).paths = (Options.ofItems items).paths ∧
      (Options.ofItems otherItems).format = (Options.ofItems items).format := by
  have unasked : ∀ item, keep item = false →
      item.path? = none ∧ item.format? = none := by
    intro item left_out
    have about := kept item left_out
    cases item with
    | path => simp [CommandItem.isDiagnostic, CommandItem.isColour] at about
    | flag => exact ⟨rfl, rfl⟩
    | value option => cases option <;>
        simp_all [CommandItem.isDiagnostic, CommandItem.isColour, CommandItem.path?,
          CommandItem.format?]
  have paths := CommandItem.filterMap_path_filter fun item out => (unasked item out).1
  have format := CommandItem.findSome?_filter fun item out => (unasked item out).2
  unfold Options.ofItems
  exact ⟨by rw [← paths items, ← paths otherItems, same],
    by rw [← format items, ← format otherItems, same]⟩

/-- Command lines that ask alike have the same output and exit code. -/
theorem AskAlike.run_eq {items otherItems : List CommandItem}
    (alike : AskAlike system other items otherItems) (tree : other.tree = system.tree) :
    (other.run (.ofItems otherItems)).output = (system.run (.ofItems items)).output ∧
      (other.run (.ofItems otherItems)).exitCode = (system.run (.ofItems items)).exitCode := by
  cases alike with
  | diagnostics display same =>
    obtain ⟨paths, format⟩ := ofItems_congr (fun item out => .inl (by simpa using out)) same
    have colour : (Options.ofItems otherItems).colour = (Options.ofItems items).colour := by
      have unasked : ∀ item : CommandItem, (!item.isDiagnostic) = false → item.colour? = none := by
        intro item left_out
        cases item with
        | value option => cases option <;> simp_all [CommandItem.isDiagnostic, CommandItem.colour?]
        | _ => rfl
      have asked := CommandItem.findSome?_filter unasked
      unfold Options.ofItems
      rw [← asked items, ← asked otherItems, same]
    exact run_congr tree paths format fun _ => by rw [colour, display]
  | structured shape same =>
    obtain ⟨paths, format⟩ :=
      ofItems_congr (fun item out => by simpa [or_iff_not_imp_left] using out) same
    refine run_congr tree paths format fun plain => ?_
    rw [shape] at plain
    cases plain

end Laws

/-- An accepted command line asks for what its items ask for, and its run is the answer to this: it
succeeds exactly when one path is given that leads to a directory, and then the output is the report
on the scan. Every accepted command line that asks alike of the same tree has the same output and
the same exit code. -/
theorem run_answers_ofArguments {arguments : List Argument} {options : Options}
    (accepted : Options.ofArguments arguments = .ok options) (system : System) :
    options = Options.ofItems (CommandItem.ofArguments arguments) ∧
      system.Answers options (system.run options) ∧
      ∀ (others : List Argument) (otherOptions : Options) (other : System),
        Options.ofArguments others = .ok otherOptions → other.tree = system.tree →
        AskAlike system other (CommandItem.ofArguments arguments) (CommandItem.ofArguments others) →
        (other.run otherOptions).output = (system.run options).output ∧
          (other.run otherOptions).exitCode = (system.run options).exitCode := by
  have asked := Options.eq_ofItems_of_ofArguments accepted
  refine ⟨asked, run_answers system options, ?_⟩
  intro others otherOptions other accepted' tree alike
  have asked' := Options.eq_ofItems_of_ofArguments accepted'
  subst asked asked'
  exact alike.run_eq tree

/-- A directory whose name is no text, with one file, seen on a terminal. -/
def oneFile : System where
  tree := ⟨.directory [([0xFF], .directory
    [(Text.utf8 "x.c".toList, .file (Text.utf8 "int x;\n".toList))])], []⟩
  display := { terminal := true }

/-- A command line for JSON with diagnostics. -/
def loudly : List Argument :=
  [Text.utf8 "-vqj4".toList, Text.utf8 "--format=json".toList, Text.utf8 "-v".toList, [0xFF]]

/-- The same without diagnostics, with colour. -/
def inColour : List Argument :=
  [Text.utf8 "--color".toList, Text.utf8 "always".toList, Text.utf8 "-f".toList,
    Text.utf8 "json".toList, Text.utf8 "--".toList, [0xFF]]

/-- Both command lines are accepted and have the same output. -/
theorem run_answers_loudly :
    ∃ options otherOptions, Options.ofArguments loudly = .ok options ∧
      Options.ofArguments inColour = .ok otherOptions ∧
      oneFile.Answers options (oneFile.run options) ∧
      (oneFile.run options).exitCode = 0 ∧
      (oneFile.run otherOptions).output = (oneFile.run options).output := by
  have accepted : Options.ofArguments loudly =
      .ok { paths := [[0xFF]], format := .structured, quiet := true, verbosity := 2,
            jobs := some 4 } := by
    rfl
  have accepted' : Options.ofArguments inColour =
      .ok { paths := [[0xFF]], format := .structured, colour := .always } := by
    rfl
  obtain ⟨_, answers, alike⟩ := run_answers_ofArguments accepted oneFile
  refine ⟨_, _, accepted, accepted', answers, answers.succeeds_iff.mpr ⟨_, _, rfl, rfl⟩, ?_⟩
  exact (alike _ _ oneFile accepted' rfl (.structured rfl rfl)).1

end System

end LineCensus
