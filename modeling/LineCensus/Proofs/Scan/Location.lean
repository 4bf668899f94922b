import LineCensus.Proofs.FileTree.Below
import LineCensus.Proofs.Path.ReportName
import LineCensus.Proofs.Scan.Tabulation

/-!
# Directories and their rows

Every planned file lies in one directory, at the end of a chain of names from the scanned directory
on (`SourceFile.LiesIn`). However the scanned directory is spelled, the row of the file is named by
the names of this chain, joined, where the scanned directory itself, which has none, has a name of
its own (`Scan.directory_eq_rowName`).

That name is one that a directory can have. A directory of this name directly in the scanned
directory shares its row (`Scan.topRow_shared`), and no other two directories share one
(`Scan.rowsByDirectory`).
-/
namespace LineCensus

/-- A file lies in the directory at the end of a chain of names from the scanned directory on. -/
def SourceFile.LiesIn (file : SourceFile) (root : Path) (entries : Entries)
    (chain : List EntryName) : Prop :=
  ∃ name node, entries.Below (chain ++ [name]) node ∧ file.path = root.below (chain ++ [name])

/-- The name of the row of the files in the directory at the end of a chain of names. -/
def rowName : List EntryName → Text
  | [] => topDirectory
  | name :: others => Utf8.decode (Path.join (name :: others))

/-- The chains of the directories in the row of the scanned directory. -/
def topChains : List (List EntryName) := [[], [topDirectory.utf8]]

section Names

variable {chain other : List EntryName}

/-- Plain names joined are a text without backslashes. -/
theorem exists_text_join (plain : ∀ name ∈ chain, name.Plain) :
    ∃ text : Text, '\\' ∉ text ∧ Path.join chain = text.utf8 := by
  induction chain with
  | nil => exact ⟨[], List.not_mem_nil, rfl⟩
  | cons name chain step =>
    obtain ⟨first, firstPlain, rfl⟩ := (plain name List.mem_cons_self).isText
    rcases eq_or_ne chain [] with rfl | more
    · exact ⟨first, firstPlain, Path.join_singleton _⟩
    · obtain ⟨rest, restPlain, same⟩ :=
        step fun other inside => plain other (List.mem_cons_of_mem _ inside)
      refine ⟨first ++ '/' :: rest, by simp [firstPlain, restPlain], ?_⟩
      rw [Path.join_cons more, same]
      unfold Text.utf8
      rw [List.flatMap_append, List.flatMap_cons]
      rfl

/-- The bytes of a row name are the names of the chain, joined. -/
theorem utf8_rowName (plain : ∀ name ∈ chain, name.Plain) (below : chain ≠ []) :
    (rowName chain).utf8 = Path.join chain := by
  obtain ⟨text, _, same⟩ := exists_text_join plain
  rcases chain with - | ⟨name, others⟩
  · exact absurd rfl below
  · rw [rowName, same, Utf8.decode_utf8]

/-- Different chains of directories below the scanned one have different row names. -/
theorem eq_of_rowName_eq (plain : ∀ name ∈ chain, name.Plain)
    (otherPlain : ∀ name ∈ other, name.Plain) (below : chain ≠ [])
    (otherBelow : other ≠ []) (same : rowName chain = rowName other) : chain = other := by
  apply Path.eq_of_join_eq (fun name inside => (plain name inside).slashFree)
    (fun name inside => (otherPlain name inside).slashFree) below otherBelow
  rw [← utf8_rowName plain below, same, utf8_rowName otherPlain otherBelow]

/-- The name of the scanned directory is one that a directory can have. -/
theorem topDirectory_plain : EntryName.Plain topDirectory.utf8 where
  slashFree := by decide
  named := by decide
  isText := ⟨topDirectory, by decide, rfl⟩

/-- The row of the scanned directory has the files in the directories of two chains. -/
theorem rowName_eq_topDirectory_iff (plain : ∀ name ∈ chain, name.Plain) :
    rowName chain = topDirectory ↔ chain ∈ topChains := by
  have named : rowName [topDirectory.utf8] = topDirectory := by
    rw [rowName, Path.join_singleton, Utf8.decode_utf8]
  constructor
  · intro same
    rcases eq_or_ne chain [] with rfl | below
    · exact List.mem_cons_self
    · have topPlain : ∀ name ∈ [topDirectory.utf8], EntryName.Plain name :=
        fun name inside => List.mem_singleton.mp inside ▸ topDirectory_plain
      rw [eq_of_rowName_eq plain topPlain below (List.cons_ne_nil _ _) (same.trans named.symm)]
      exact List.mem_cons_of_mem _ List.mem_cons_self
  · intro inside
    rcases List.mem_cons.mp inside with rfl | inside
    · rfl
    · rw [List.mem_singleton.mp inside, named]

/-- Two chains have one row name when they are the same, and when both are of the directories in
the row of the scanned one. -/
theorem rowName_eq_iff (plain : ∀ name ∈ chain, name.Plain)
    (otherPlain : ∀ name ∈ other, name.Plain) :
    rowName chain = rowName other ↔ chain = other ∨ chain ∈ topChains ∧ other ∈ topChains := by
  rw [← rowName_eq_topDirectory_iff plain, ← rowName_eq_topDirectory_iff otherPlain]
  constructor
  · intro same
    rcases eq_or_ne chain [] with rfl | below
    · exact .inr ⟨rfl, same.symm⟩
    · rcases eq_or_ne other [] with rfl | otherBelow
      · exact .inr ⟨same, rfl⟩
      · exact .inl (eq_of_rowName_eq plain otherPlain below otherBelow same)
  · rintro (rfl | ⟨top, otherTop⟩)
    · rfl
    · rw [top, otherTop]

/-- A text without backslashes has the slashes it has. -/
theorem withSlashes_eq {text : Text} (plain : '\\' ∉ text) : text.withSlashes = text := by
  unfold Text.withSlashes
  refine (List.map_congr_left fun char inside => ?_).trans (List.map_id text)
  have kept : char ≠ '\\' := fun same => plain (same ▸ inside)
  exact if_neg kept

/-- A directory of which the names of a chain are left is reported by the row name of the chain. -/
theorem reportName_eq {directory root : Path} (plain : ∀ name ∈ chain, name.Plain)
    (left : directory.under? root = some (Path.join chain)) :
    directory.reportName root = rowName chain := by
  obtain ⟨text, textPlain, same⟩ := exists_text_join plain
  rw [Path.reportName_of_under? (fun name inside => (plain name inside).toProper) same left]
  rcases chain with - | ⟨name, others⟩
  · rfl
  · rw [if_neg (List.cons_ne_nil name others), withSlashes_eq textPlain, rowName, same,
      Utf8.decode_utf8]

end Names

/-- The planned files lie in the directories whose rows they are counted in. -/
structure Plan.RowsByDirectory (root : Path) (entries : Entries) (plan : Plan) : Prop where
  /-- Each file lies in the directory of one chain of names. -/
  located : ∀ file ∈ plan.files, ∃! chain, file.LiesIn root entries chain
  /-- Two files have one row when they lie in the same directory, and when each lies in one of the
  directories that are in the row of the scanned one. -/
  sameRow_iff : ∀ file ∈ plan.files, ∀ other ∈ plan.files, ∀ chain otherChain,
    file.LiesIn root entries chain → other.LiesIn root entries otherChain →
    (file.directory = other.directory ↔
      chain = otherChain ∨ chain ∈ topChains ∧ otherChain ∈ topChains)
  /-- The row of the scanned directory has the files in these directories. -/
  topRow_iff : ∀ file ∈ plan.files, ∀ chain, file.LiesIn root entries chain →
    (file.directory = topDirectory ↔ chain ∈ topChains)

namespace Scan

section Location

variable {tree : FileTree} {registry : Registry} {root : Path} {entries : Entries}

/-- A planned file lies in some directory of the scanned one, and its row is named after the parent
of its path. -/
theorem exists_liesIn {file : SourceFile}
    (planned : file ∈ (inNameOrder (tree.entryVisits root entries)).filterMap
      (registry.sourceFile? root)) :
    (∃ chain, file.LiesIn root entries chain) ∧
      file.directory = (file.path.parent?.getD root).reportName root := by
  obtain ⟨visit, met, recognised⟩ := List.mem_filterMap.mp planned
  cases visit with
  | directory path => cases recognised
  | file path name =>
    obtain ⟨language, _, rfl⟩ := Option.map_eq_some_iff.mp recognised
    obtain ⟨chain, node, below, same⟩ :=
      tree.exists_below_of_mem_entryVisits root entries (mem_inNameOrder.mp met)
    obtain ⟨front, last, rfl⟩ := below.exists_concat
    exact ⟨⟨front, last, node, below, same⟩, rfl⟩

variable {segments : List EntryName} (spelling : Path.EntrySpelling root segments)
  (plain : entries.Plain)

include spelling plain

/-- A file lies in one directory only. -/
theorem eq_of_liesIn {file : SourceFile} {chain other : List EntryName}
    (lies : file.LiesIn root entries chain) (otherLies : file.LiesIn root entries other) :
    chain = other := by
  obtain ⟨name, node, below, same⟩ := lies
  obtain ⟨last, otherNode, otherBelow, otherSame⟩ := otherLies
  exact spelling.below_inj (fun part inside => (plain _ _ below part inside).toProper)
    (fun part inside => (plain _ _ otherBelow part inside).toProper) (same.symm.trans otherSame)

/-- The row of a planned file is named by the directory that it lies in. -/
theorem directory_eq_rowName {file : SourceFile} {chain : List EntryName}
    (planned : file ∈ (inNameOrder (tree.entryVisits root entries)).filterMap
      (registry.sourceFile? root))
    (lies : file.LiesIn root entries chain) : file.directory = rowName chain := by
  obtain ⟨name, node, below, same⟩ := lies
  have allPlain := plain _ _ below
  obtain ⟨parent, parented, left⟩ :=
    spelling.parent?_under? fun part inside => (allPlain part inside).toProper
  rw [(exists_liesIn planned).2, same, parented, Option.getD_some]
  exact reportName_eq (fun part inside => allPlain part (List.mem_append_left _ inside)) left

end Location

/-- A scan of a directory with plain names succeeds. Its plan has a row for each directory with a
planned file, but one for the scanned directory and the directory of its name directly in it, and
its tally has in a row the lines of the files of that row. -/
theorem rowsByDirectory (tree : FileTree) (registry : Registry) (root : Path) {entries : Entries}
    (isDirectory : tree.find? root = some (.directory entries)) (plain : entries.Plain) :
    ∃ plan scan, tree.plan registry root = .ok plan ∧ ofRoot tree registry root = .ok scan ∧
      plan.RowsByDirectory root entries ∧
      ∀ directory language, scan.tally.linesOf directory language =
        ((plan.files.filter fun file => file.directory = directory ∧
          file.language.tag = language).filterMap tree.sourceLines?).sum := by
  obtain ⟨plan, planned, files⟩ := plan_of_directory tree registry isDirectory
  obtain ⟨scan, scanned, tallied⟩ := ofRoot_of_plan planned
  obtain ⟨segments, spelling⟩ := Path.exists_entrySpelling (FileTree.ne_nil_of_find? isDirectory)
  have chainPlain {file : SourceFile} {chain : List EntryName}
      (lies : file.LiesIn root entries chain) : ∀ name ∈ chain, name.Plain := by
    obtain ⟨last, node, below, _⟩ := lies
    exact fun name inside => plain _ _ below name (List.mem_append_left _ inside)
  have named {file : SourceFile} {chain : List EntryName} (inPlan : file ∈ plan.files)
      (lies : file.LiesIn root entries chain) : file.directory = rowName chain :=
    directory_eq_rowName spelling plain (files ▸ inPlan) lies
  refine ⟨plan, scan, planned, scanned, ⟨?_, ?_, ?_⟩, tallied ▸ linesOf_tallyFiles tree plan.files⟩
  · intro file inPlan
    obtain ⟨chain, lies⟩ := (exists_liesIn (files ▸ inPlan)).1
    exact ⟨chain, lies, fun other otherLies => eq_of_liesIn spelling plain otherLies lies⟩
  · intro file inPlan other otherInPlan chain otherChain lies otherLies
    rw [named inPlan lies, named otherInPlan otherLies]
    exact rowName_eq_iff (chainPlain lies) (chainPlain otherLies)
  · intro file inPlan chain lies
    rw [named inPlan lies]
    exact rowName_eq_topDirectory_iff (chainPlain lies)

/-- A tree in which a directory has the name of the row of the scanned directory. -/
def namedLikeTop : FileTree where
  root := .directory
    [(topDirectory.utf8,
      .directory [(Text.utf8 "y.c".toList, .file (Text.utf8 "int y;\n".toList))]),
     (Text.utf8 "x.c".toList, .file (Text.utf8 "int x;\n".toList))]
  workingDirectory := []

/-- The names in that tree are plain. -/
theorem namedLikeTop_plain : namedLikeTop.root.entries.Plain := by
  have inner : EntryName.Plain (Text.utf8 "y.c".toList) :=
    ⟨⟨by decide, by decide⟩, _, by decide, rfl⟩
  have outer : EntryName.Plain (Text.utf8 "x.c".toList) :=
    ⟨⟨by decide, by decide⟩, _, by decide, rfl⟩
  exact .cons topDirectory_plain (.cons inner .nil .nil) (.cons outer .nil .nil)

/-- The scan of that tree has rows by directory. -/
theorem rowsByDirectory_namedLikeTop :
    namedLikeTop.find? [fullStop] = some (.directory namedLikeTop.root.entries) ∧
      namedLikeTop.root.entries.Plain ∧
      ∃ plan scan, namedLikeTop.plan twoLanguages [fullStop] = .ok plan ∧
        ofRoot namedLikeTop twoLanguages [fullStop] = .ok scan ∧
        plan.RowsByDirectory [fullStop] namedLikeTop.root.entries ∧
        ∀ directory language, scan.tally.linesOf directory language =
          ((plan.files.filter fun file => file.directory = directory ∧
            file.language.tag = language).filterMap namedLikeTop.sourceLines?).sum :=
  ⟨rfl, namedLikeTop_plain,
    rowsByDirectory namedLikeTop twoLanguages [fullStop] rfl namedLikeTop_plain⟩

/-- In the scan of that tree a file of the scanned directory and one of a directory below have the
same row. -/
theorem topRow_shared :
    namedLikeTop.find? [fullStop] = some (.directory namedLikeTop.root.entries) ∧
      namedLikeTop.root.entries.Plain ∧
      ∃ plan, namedLikeTop.plan twoLanguages [fullStop] = .ok plan ∧
        ∃ file ∈ plan.files, ∃ other ∈ plan.files,
          file.LiesIn [fullStop] namedLikeTop.root.entries [] ∧
          other.LiesIn [fullStop] namedLikeTop.root.entries [topDirectory.utf8] ∧
          file.directory = other.directory := by
  have planned : namedLikeTop.plan twoLanguages [fullStop] = .ok
      { directories := 2
        files :=
          [⟨Text.utf8 "./top_dir/y.c".toList, topDirectory, Language.ofTag .slashes "c"⟩,
            ⟨Text.utf8 "./x.c".toList, topDirectory, Language.ofTag .slashes "c"⟩]
        unsupported := [] } := by cbv
  refine ⟨rfl, namedLikeTop_plain, _, planned, _, List.mem_cons_of_mem _ List.mem_cons_self, _,
    List.mem_cons_self, ?_, ?_, rfl⟩
  · exact ⟨_, _, .here (List.mem_cons_of_mem _ List.mem_cons_self), rfl⟩
  · exact ⟨_, _, .inside List.mem_cons_self (.here List.mem_cons_self), rfl⟩

end Scan

end LineCensus
