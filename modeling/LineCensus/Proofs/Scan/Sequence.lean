import LineCensus.Proofs.Scan.Tabulation

/-!
# A scan and the files one after another

The files of a scan can also be recorded in one tally, one after another in the order of the walk
(`recordFiles`). The cells are those of the scan then, with the same orders of directories and of
languages in each, and so are the totals (`directories_recordFiles`, `get?_languages_recordFiles`).

Only the order of the totals is another one. Recording lists languages by their first file with
lines, and a scan lists them directory by directory, because its last merge does. The two orders
differ where a language is first met in a directory below, between two files of its parent
(`languages_not_by_file`), and that they agree is all that it takes for the tallies to be the same
(`tally_eq_recordFiles_iff`).
-/
namespace LineCensus.Scan

open FirstSeen

/-- Lists the directory of a file in a tally and records the lines of the file there, if it can be
read. -/
def recordFile (tree : FileTree) (tally : Tally) (file : SourceFile) : Tally :=
  let listed := tally.addDirectory file.directory
  match tree.countFile file.language.grammar file.path with
  | .ok count => listed.record file.directory file.language.tag count.sourceLines
  | .error _ => listed

/-- The tally of files that are recorded one after another, after the scanned directory is
listed. -/
def recordFiles (tree : FileTree) (files : List SourceFile) : Tally :=
  files.foldl (recordFile tree) Tally.ofTopDirectory

/-- Languages in the order of their first file with lines. -/
def languagesByFile (tree : FileTree) (files : List SourceFile) : List Text :=
  ((files.filter tree.hasLines).map fun file => file.language.tag).eraseDups

/-- Languages in the order in which they are met in the directories, these taken by their first
file, and in a directory in the order of their first file with lines. -/
def languagesByDirectory (tree : FileTree) (files : List SourceFile) : List Text :=
  ((files.map SourceFile.directory).eraseDups.flatMap fun directory =>
    languagesByFile tree (files.filter fun file => file.directory = directory)).eraseDups

variable (tree : FileTree) (files : List SourceFile)

/-- A file that cannot be read is recorded like one without lines. -/
theorem recordFile_eq (tally : Tally) (file : SourceFile) :
    recordFile tree tally file = (tally.addDirectory file.directory).record file.directory
      file.language.tag ((tree.sourceLines? file).getD 0) := by
  unfold recordFile FileTree.sourceLines?
  cases tree.countFile file.language.grammar file.path with
  | ok _ => rfl
  | error _ => exact (Tally.record_zero _ _ _).symm

/-- Files recorded one after another leave the cells of the scan. -/
theorem directories_recordFiles :
    (recordFiles tree files).directories = (tallyFiles tree files).directories := by
  have run : ∀ tally : Tally, (files.foldl (recordFile tree) tally).directories =
      tally.directories.writeAll Tally.gatherInto (files.map tree.logEntry) := by
    induction files with
    | nil => exact fun _ => rfl
    | cons file files step =>
      intro tally
      rw [List.foldl_cons, step, recordFile_eq, Tally.directories_addDirectory_record]
      rfl
  rw [directories_tallyFiles]
  exact run Tally.ofTopDirectory

/-- Files recorded one after another are gathered into the totals one after another. -/
theorem languages_recordFiles :
    (recordFiles tree files).languages = (∅ : LanguageLines).gather
      (files.map fun file => (file.language.tag, (tree.sourceLines? file).getD 0)) := by
  have run : ∀ tally : Tally, (files.foldl (recordFile tree) tally).languages =
      tally.languages.gather
        (files.map fun file => (file.language.tag, (tree.sourceLines? file).getD 0)) := by
    induction files with
    | nil => exact fun _ => rfl
    | cons file files step =>
      intro tally
      rw [List.foldl_cons, step, recordFile_eq, Tally.languages_record,
        Tally.languages_addDirectory, ← LanguageLines.gather_append]
      rfl
  exact run Tally.ofTopDirectory

/-- Files recorded one after another list the languages by their first file with lines. -/
theorem keys_languages_recordFiles :
    (recordFiles tree files).languages.keys = languagesByFile tree files := by
  rw [languages_recordFiles, LanguageLines.keys_gather, tree.withLines_lines]
  rfl

/-- A scan lists the languages as they are met in the directories. -/
theorem keys_languages_eq_languagesByDirectory :
    (tallyFiles tree files).languages.keys = languagesByDirectory tree files := by
  have cells : ∀ directory, (((tallyFiles tree files).cells? directory).getD ∅).keys =
      languagesByFile tree (files.filter fun file => file.directory = directory) := by
    intro directory
    unfold languagesByFile
    rw [keys_cells_tallyFiles, List.filter_filter]
    simp only [Bool.decide_and, Bool.decide_eq_true, Bool.and_comm]
  rw [keys_languages_tallyFiles]
  simp only [cells]
  rfl

/-- The tally of files recorded one after another came about by listing and recording. -/
theorem recordFiles_recorded : (recordFiles tree files).Recorded := by
  have run : ∀ tally : Tally, tally.Recorded → (files.foldl (recordFile tree) tally).Recorded := by
    induction files with
    | nil => exact fun _ recorded => recorded
    | cons file files step =>
      intro tally recorded
      apply step
      rw [recordFile_eq]
      exact (recorded.addDirectory _).record _ _ _
  exact run _ (Tally.Recorded.empty.addDirectory topDirectory)

/-- Files recorded one after another leave the totals of the scan, though in another order. -/
theorem get?_languages_recordFiles (language : Text) :
    (tallyFiles tree files).languages.get? language =
      (recordFiles tree files).languages.get? language :=
  (tallyFiles_recorded tree files).invariant.get?_languages_eq
    (recordFiles_recorded tree files).invariant (directories_recordFiles tree files).symm language

/-- A scan of a directory succeeds. Its tally has the directories and cells of the files recorded
one after another, in the same orders, and the same totals. It is the same tally exactly when the
languages are met in the directories in the order of their first file with lines. -/
theorem tally_eq_recordFiles_iff (registry : Registry) (root : Path) {entries : Entries}
    (isDirectory : tree.find? root = some (.directory entries)) :
    ∃ plan scan, tree.plan registry root = .ok plan ∧ ofRoot tree registry root = .ok scan ∧
      scan.tally.directories = (recordFiles tree plan.files).directories ∧
      (∀ language, scan.tally.languages.get? language =
        (recordFiles tree plan.files).languages.get? language) ∧
      (scan.tally = recordFiles tree plan.files ↔
        languagesByDirectory tree plan.files = languagesByFile tree plan.files) := by
  obtain ⟨plan, planned, _⟩ := plan_of_directory tree registry isDirectory
  obtain ⟨scan, scanned, tallied⟩ := ofRoot_of_plan planned
  have cells := (directories_recordFiles tree plan.files).symm
  have totals := get?_languages_recordFiles tree plan.files
  refine ⟨plan, scan, planned, scanned, tallied ▸ cells, tallied ▸ totals, ?_⟩
  rw [tallied, ← keys_languages_eq_languagesByDirectory, ← keys_languages_recordFiles]
  constructor
  · intro same
    rw [same]
  · intro order
    have languages : (tallyFiles tree plan.files).languages =
        (recordFiles tree plan.files).languages := ext_keys order totals
    calc
      tallyFiles tree plan.files =
          ⟨(tallyFiles tree plan.files).directories, (tallyFiles tree plan.files).languages⟩ := rfl
      _ = recordFiles tree plan.files := by rw [cells, languages]

/-- A tree in which a directory comes between two files of the scanned directory. -/
def betweenFiles : FileTree where
  root := .directory
    [(Text.utf8 "a.c".toList, .file (Text.utf8 "int x;\n".toList)),
     (Text.utf8 "b".toList,
      .directory [(Text.utf8 "x.py".toList, .file (Text.utf8 "y = 1\n".toList))]),
     (Text.utf8 "c.sh".toList, .file (Text.utf8 "ls\n".toList))]
  workingDirectory := []

/-- A registry of the three languages in that tree. -/
def threeLanguages : Registry :=
  Registry.ofLanguages
    [Language.ofTag .slashes "c", Language.ofTag .hash "py", Language.ofTag .hash "sh"]

/-- The scan of that tree has the cells of its files one after another. -/
theorem tally_eq_recordFiles_iff_betweenFiles :
    betweenFiles.find? [fullStop] = some betweenFiles.root ∧
      ∃ plan scan, betweenFiles.plan threeLanguages [fullStop] = .ok plan ∧
        ofRoot betweenFiles threeLanguages [fullStop] = .ok scan ∧
        scan.tally.directories = (recordFiles betweenFiles plan.files).directories ∧
        (∀ language, scan.tally.languages.get? language =
          (recordFiles betweenFiles plan.files).languages.get? language) ∧
        (scan.tally = recordFiles betweenFiles plan.files ↔
          languagesByDirectory betweenFiles plan.files =
            languagesByFile betweenFiles plan.files) :=
  ⟨rfl, tally_eq_recordFiles_iff betweenFiles threeLanguages [fullStop] rfl⟩

/-- In the scan of that tree the language of the directory below comes last in the totals, though
its file comes before the last one of the scanned directory. -/
theorem languages_not_by_file :
    ∃ scan, ofRoot betweenFiles threeLanguages [fullStop] = .ok scan ∧
      scan.tally.languages.keys ≠ (recordFiles betweenFiles scan.plan.files).languages.keys := by
  have orders : ((ofRoot betweenFiles threeLanguages [fullStop]).toOption.map fun scan =>
      (scan.tally.languages.keys, (recordFiles betweenFiles scan.plan.files).languages.keys)) =
      some (["c".toList, "sh".toList, "py".toList], ["c".toList, "py".toList, "sh".toList]) := by
    cbv
  rcases scanned : ofRoot betweenFiles threeLanguages [fullStop] with error | scan
  · rw [scanned] at orders
    cases orders
  · rw [scanned] at orders
    have both := Prod.mk.inj (Option.some.inj orders)
    refine ⟨scan, rfl, ?_⟩
    rw [both.1, both.2]
    decide

end LineCensus.Scan
