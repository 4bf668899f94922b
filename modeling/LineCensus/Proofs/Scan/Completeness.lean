import LineCensus.Proofs.FileTree.Order
import LineCensus.Proofs.Scan.FileLog

/-!
# The plan of a directory is complete

A file lies below the scanned directory under each chain of names that ends, without passing through
links, at a regular file or at a link that leads to one (`FileTree.FileBelow`). A plan covers these
files (`Plan.Covers`): the ones with a language are planned once each, in the order of their chains
of names, and the others are listed as unsupported. Links to directories, links that lead nowhere
because they dangle or loop, and special entries are in neither list.

A directory has such a plan if it is lawful and the paths in it keep within the limits
(`Scan.exists_covers`). Whether a planned file can be read plays no part in this; those that cannot
are the failures of the scan.
-/
namespace LineCensus

namespace FileTree

/-- A node with a path is a regular file, or a link whose path leads to one. -/
inductive FileAt (tree : FileTree) (path : Path) : Node → Prop
  /-- The node is a regular file. -/
  | regular {node : Node} (regular : node.isRegular) : FileAt tree path node
  /-- The node is a link, and the path leads to a regular file. -/
  | linked {target : Path} {followed : List Path} {reached : Position}
    (leads : tree.LeadsTo path followed reached) (regular : reached.here.isRegular) :
    FileAt tree path (.link target)

/-- A file lies under a chain of names in a directory with a path. -/
def FileBelow (tree : FileTree) (path : Path) (entries : Entries) (chain : List EntryName) : Prop :=
  ∃ node, entries.Below chain node ∧ tree.FileAt (path.below chain) node

/-- Within the limits a walk meets the files. -/
theorem meetsFile_iff {tree : FileTree} {path : Path} {node : Node}
    (within : tree.WithinLimits path) : tree.meetsFile path node ↔ tree.FileAt path node := by
  cases node with
  | link target =>
    constructor
    · intro meets
      obtain ⟨followed, reached, leads, regular⟩ := (isRegular_iff within).mp meets
      exact .linked leads regular
    · intro file
      cases file with
      | regular regular => cases regular
      | linked leads regular => exact (isRegular_iff within).mpr ⟨_, _, leads, regular⟩
  | file bytes => exact iff_of_true rfl (.regular rfl)
  | unreadable => exact iff_of_true rfl (.regular rfl)
  | special => exact ⟨nofun, fun | .regular regular => regular⟩
  | directory entries => exact ⟨nofun, fun | .regular regular => regular⟩

section Chains

variable {tree : FileTree} {path : Path} {entries : Entries} {chains : List (List EntryName)}

/-- Different files below a lawful directory have different paths. -/
theorem nodup_map_below (lawful : entries.Lawful) (once : chains.Nodup)
    (files : ∀ chain ∈ chains, tree.FileBelow path entries chain) :
    (chains.map path.below).Nodup := by
  refine List.Nodup.map_on ?_ once
  intro chain inside other otherInside same
  obtain ⟨_, below, _⟩ := files chain inside
  obtain ⟨_, otherBelow, _⟩ := files other otherInside
  exact below.chain_unique otherBelow lawful same

/-- What is no file in a lawful directory does not have the path of a file below it. -/
theorem below_not_mem_map (lawful : entries.Lawful)
    (files : ∀ chain ∈ chains, tree.FileBelow path entries chain) {chain : List EntryName}
    {node : Node} (below : entries.Below chain node)
    (noFile : ¬ tree.FileAt (path.below chain) node) :
    path.below chain ∉ chains.map path.below := by
  intro met
  obtain ⟨other, inside, same⟩ := List.mem_map.mp met
  obtain ⟨found, otherBelow, file⟩ := files other inside
  cases otherBelow.chain_unique below lawful same
  cases otherBelow.unique below lawful
  exact noFile file

end Chains

end FileTree

/-- A plan covers the files below a directory. -/
structure Plan.Covers (tree : FileTree) (registry : Registry) (root : Path) (entries : Entries)
    (plan : Plan) : Prop where
  /-- The planned files are those whose name has a language, with this language. -/
  planned_iff : ∀ path language,
    (∃ file ∈ plan.files, file.path = path ∧ file.language = language) ↔
      ∃ front name, tree.FileBelow root entries (front ++ [name]) ∧
        path = root.below (front ++ [name]) ∧ registry.resolve? (Utf8.decode name) = some language
  /-- No file is planned twice. -/
  planned_once : (plan.files.map SourceFile.path).Nodup
  /-- They are planned in the order of their chains of names. -/
  ascending : ∃ chains : List (List EntryName), chains.Pairwise (· < ·) ∧
    (∀ chain ∈ chains, tree.FileBelow root entries chain) ∧
    plan.files.map SourceFile.path = chains.map root.below
  /-- The unsupported files are those whose name has no language. -/
  unsupported_iff : ∀ path, path ∈ plan.unsupported ↔
    ∃ front name, tree.FileBelow root entries (front ++ [name]) ∧
      path = root.below (front ++ [name]) ∧ registry.resolve? (Utf8.decode name) = none
  /-- No unsupported file is listed twice. -/
  unsupported_once : plan.unsupported.Nodup
  /-- There are as many files in both lists as below the directory. -/
  total : ∃ chains : List (List EntryName), chains.Nodup ∧
    (∀ chain, chain ∈ chains ↔ tree.FileBelow root entries chain) ∧
    plan.files.length + plan.unsupported.length = chains.length
  /-- What is no file and no link to one is in neither list. -/
  passed_over : ∀ chain node, entries.Below chain node → ¬ tree.FileAt (root.below chain) node →
    root.below chain ∉ plan.files.map SourceFile.path ∧ root.below chain ∉ plan.unsupported

namespace Registry

/-- A chain of names ends with the name of a file that has a language. -/
def supports (registry : Registry) (chain : List EntryName) : Bool :=
  (registry.resolve? (Utf8.decode (lastName chain))).isSome

variable (registry : Registry) (root : Path) (chains : List (List EntryName))

/-- The file to count at the end of a chain has the path of the chain and the language of its last
name. -/
theorem sourceFile?_fileBelow_eq_some_iff {chain : List EntryName} {file : SourceFile} :
    registry.sourceFile? root (.fileBelow root chain) = some file ↔
      ∃ language, registry.resolve? (Utf8.decode (lastName chain)) = some language ∧
        file = ⟨root.below chain, ((root.below chain).parent?.getD root).reportName root,
          language⟩ := by
  unfold sourceFile? Visit.fileBelow languageOf?
  simp only [Option.map_eq_some_iff, eq_comm (b := file)]

/-- The paths of the files to count at the ends of chains are those of the supported chains. -/
theorem map_path_filterMap_sourceFile? :
    (chains.filterMap fun chain =>
      registry.sourceFile? root (.fileBelow root chain)).map SourceFile.path =
        (chains.filter registry.supports).map root.below := by
  induction chains with
  | nil => rfl
  | cons chain chains step =>
    unfold supports sourceFile? Visit.fileBelow languageOf? at step ⊢
    cases found : registry.resolve? (Utf8.decode (lastName chain)) with
    | none => simpa [found] using step
    | some language => simpa [found] using step

/-- The unsupported files at the ends of chains are those of the other chains. -/
theorem filterMap_unsupported? :
    (chains.filterMap fun chain => registry.unsupported? (.fileBelow root chain)) =
      (chains.filter fun chain => !registry.supports chain).map root.below := by
  induction chains with
  | nil => rfl
  | cons chain chains step =>
    unfold supports unsupported? Visit.fileBelow languageOf? at step ⊢
    cases found : registry.resolve? (Utf8.decode (lastName chain)) with
    | none => simpa [found] using step
    | some language => simpa [found] using step

end Registry

namespace Scan

variable {tree : FileTree} {registry : Registry} {root : Path} {entries : Entries}

/-- The plan of a directory lists the unsupported files met below it. -/
theorem unsupported_of_plan {plan : Plan}
    (isDirectory : tree.find? root = some (.directory entries))
    (planned : tree.plan registry root = .ok plan) : plan.unsupported =
      (inNameOrder (tree.entryVisits root entries)).filterMap registry.unsupported? := by
  unfold FileTree.plan FileTree.walk? FileTree.list? at planned
  rw [isDirectory] at planned
  cases planned
  unfold Registry.plan
  dsimp only
  split
  · rfl
  · rfl

/-- The failures of a scan are those of its planned files that cannot be read. -/
theorem length_failures {scan : Scan} (scanned : ofRoot tree registry root = .ok scan) :
    tree.plan registry root = .ok scan.plan ∧
      scan.failures.length = scan.plan.files.countP fun file => (tree.read? file.path).isNone := by
  unfold ofRoot at scanned
  split at scanned
  · cases scanned
  · next planned =>
    cases scanned
    refine ⟨planned, ?_⟩
    rw [List.length_filterMap_eq_countP]
    refine List.countP_congr fun file _ => ?_
    unfold FileTree.failure? FileTree.countFile
    cases tree.read? file.path with
    | none => rfl
    | some bytes => rfl

end Scan

namespace Plan

variable {tree : FileTree} {registry : Registry} {root : Path} {entries : Entries}
  {chains : List (List EntryName)} {plan : Plan}

/-- A plan covers the files below a lawful directory when it is made from their chains in order. -/
theorem Covers.of_chains (lawful : entries.Lawful) (ordered : chains.Pairwise (· < ·))
    (mem_iff : ∀ chain, chain ∈ chains ↔ tree.FileBelow root entries chain)
    (files : plan.files = chains.filterMap fun chain =>
      registry.sourceFile? root (.fileBelow root chain))
    (unsupported : plan.unsupported = chains.filterMap fun chain =>
      registry.unsupported? (.fileBelow root chain)) : plan.Covers tree registry root entries := by
  have once : chains.Nodup := by
    refine ordered.imp ?_
    rintro chain _ before rfl
    exact List.lt_irrefl chain before
  have kept (keep : List EntryName → Bool) :
      ∀ chain ∈ chains.filter keep, tree.FileBelow root entries chain :=
    fun chain inside => (mem_iff chain).mp (List.mem_of_mem_filter inside)
  have paths : plan.files.map SourceFile.path = (chains.filter registry.supports).map root.below :=
    files ▸ registry.map_path_filterMap_sourceFile? root chains
  have others : plan.unsupported =
      (chains.filter fun chain => !registry.supports chain).map root.below :=
    unsupported ▸ registry.filterMap_unsupported? root chains
  constructor
  case planned_iff =>
    intro path language
    simp only [files, List.mem_filterMap, registry.sourceFile?_fileBelow_eq_some_iff, mem_iff]
    constructor
    · rintro ⟨_, ⟨chain, file, found, named, rfl⟩, rfl, rfl⟩
      obtain ⟨front, name, rfl⟩ := file.choose_spec.1.exists_concat
      exact ⟨front, name, file, rfl, lastName_concat front name ▸ named⟩
    · rintro ⟨front, name, file, rfl, named⟩
      exact ⟨_, ⟨_, file, language, (lastName_concat front name).symm ▸ named, rfl⟩, rfl, rfl⟩
  case planned_once => exact paths ▸ FileTree.nodup_map_below lawful (once.filter _) (kept _)
  case ascending => exact ⟨chains.filter registry.supports, ordered.filter _, kept _, paths⟩
  case unsupported_iff =>
    intro path
    rw [others, List.mem_map]
    simp only [List.mem_filter, mem_iff]
    constructor
    · rintro ⟨chain, ⟨file, unnamed⟩, rfl⟩
      obtain ⟨front, name, rfl⟩ := file.choose_spec.1.exists_concat
      unfold Registry.supports at unnamed
      rw [lastName_concat] at unnamed
      exact ⟨front, name, file, rfl, by simpa using unnamed⟩
    · rintro ⟨front, name, file, rfl, unnamed⟩
      refine ⟨front ++ [name], ⟨file, ?_⟩, rfl⟩
      unfold Registry.supports
      rw [lastName_concat, unnamed]
      rfl
  case unsupported_once => exact others ▸ FileTree.nodup_map_below lawful (once.filter _) (kept _)
  case total =>
    refine ⟨chains, once, mem_iff, ?_⟩
    have planned : plan.files.length = (chains.filter registry.supports).length := by
      rw [← List.length_map SourceFile.path, paths, List.length_map]
    rw [planned, others, List.length_map]
    exact (List.length_eq_length_filter_add registry.supports).symm
  case passed_over =>
    intro chain node below noFile
    exact ⟨paths ▸ FileTree.below_not_mem_map lawful (kept _) below noFile,
      others ▸ FileTree.below_not_mem_map lawful (kept _) below noFile⟩

end Plan

namespace Scan

open Entries (forall_below_cons forall_below_nil)

/-- A scan of a lawful directory, where the paths of all that lies below it keep within the limits,
succeeds. Its plan covers the files below the directory, and its failures are as many as the planned
files that cannot be read. -/
theorem exists_covers (tree : FileTree) (registry : Registry) (root : Path) {entries : Entries}
    (isDirectory : tree.find? root = some (.directory entries)) (lawful : entries.Lawful)
    (within : ∀ chain node, entries.Below chain node → tree.WithinLimits (root.below chain)) :
    ∃ plan scan, tree.plan registry root = .ok plan ∧ ofRoot tree registry root = .ok scan ∧
      scan.plan = plan ∧ plan.Covers tree registry root entries ∧
      scan.failures.length = plan.files.countP fun file => (tree.read? file.path).isNone := by
  obtain ⟨plan, planned, files⟩ := plan_of_directory tree registry isDirectory
  obtain ⟨scan, scanned, _⟩ := ofRoot_of_plan planned
  obtain ⟨scanPlanned, failures⟩ := length_failures scanned
  cases planned.symm.trans scanPlanned
  obtain ⟨chains, charts⟩ := tree.exists_charts lawful fun chain inside below =>
    (within chain _ below).fits
  have mem_iff : ∀ chain, chain ∈ chains ↔ tree.FileBelow root entries chain := by
    intro chain
    rw [charts.mem_iff]
    exact exists_congr fun node => and_congr_right fun below =>
      FileTree.meetsFile_iff (within chain node below)
  refine ⟨scan.plan, scan, planned, scanned, rfl, ?_, failures⟩
  apply Plan.Covers.of_chains lawful charts.ordered mem_iff
  · rw [files]
    exact charts.filterMap_eq fun _ => rfl
  · rw [unsupported_of_plan isDirectory planned]
    exact charts.filterMap_eq fun _ => rfl

/-- A tree with a file, a link to it, links to the scanned directory, to nothing and to itself, a
file without a language that cannot be read, and an entry of another kind. -/
def mixedEntries : FileTree where
  root := .directory
    [(Text.utf8 "a".toList,
      .directory [(Text.utf8 "x.c".toList, .file (Text.utf8 "int x;\n".toList))]),
     (Text.utf8 "a.c".toList, .link (Text.utf8 "a/x.c".toList)),
     (Text.utf8 "gone.c".toList, .link (Text.utf8 "nowhere".toList)),
     (Text.utf8 "here.c".toList, .link (Text.utf8 ".".toList)),
     (Text.utf8 "loop.c".toList, .link (Text.utf8 "loop.c".toList)),
     (Text.utf8 "notes".toList, .unreadable),
     (Text.utf8 "pipe.c".toList, .special)]
  workingDirectory := []

/-- A registry of one language. -/
def oneLanguage : Registry := Registry.ofLanguages [Language.ofTag .slashes "c"]

/-- The entries of that tree are lawful. -/
theorem mixedEntries_lawful : mixedEntries.root.entries.Lawful :=
  .cons (by decide) (by decide) (.cons (by decide) (by decide) .nil .nil)
    (.cons (by decide) (by decide) .nil
      (.cons (by decide) (by decide) .nil
        (.cons (by decide) (by decide) .nil
          (.cons (by decide) (by decide) .nil
            (.cons (by decide) (by decide) .nil
              (.cons (by decide) (by decide) .nil .nil))))))

/-- The links to nothing and to itself lead nowhere. -/
theorem mixedEntries_nowhere (followed : List Path) (reached : FileTree.Position) :
    ¬ mixedEntries.LeadsTo (Text.utf8 "./gone.c".toList) followed reached ∧
      ¬ mixedEntries.LeadsTo (Text.utf8 "./loop.c".toList) followed reached := by
  constructor
  · rintro ⟨_, leads⟩
    obtain ⟨_, _, _, onward⟩ := (FileTree.leads_iff_of_link rfl).mp leads
    exact FileTree.not_leads_of_nowhere rfl onward
  · rintro ⟨_, leads⟩
    obtain ⟨_, _, _, onward⟩ := (FileTree.leads_iff_of_link rfl).mp leads
    exact FileTree.not_leads_of_loop rfl rfl rfl onward

/-- The paths in that tree keep within the limits. -/
theorem mixedEntries_within : ∀ chain node, mixedEntries.root.entries.Below chain node →
    mixedEntries.WithinLimits (Path.below [fullStop] chain) := by
  refine forall_below_cons ?_ (forall_below_cons ?_ forall_below_nil forall_below_nil)
    (forall_below_cons ?_ forall_below_nil (forall_below_cons ?gone forall_below_nil
      (forall_below_cons ?_ forall_below_nil (forall_below_cons ?loop forall_below_nil
        (forall_below_cons ?_ forall_below_nil (forall_below_cons ?_ forall_below_nil
          forall_below_nil))))))
  case gone =>
    exact FileTree.withinLimits_of_not_leadsTo (by decide) fun _ _ => (mixedEntries_nowhere _ _).1
  case loop =>
    exact FileTree.withinLimits_of_not_leadsTo (by decide) fun _ _ => (mixedEntries_nowhere _ _).2
  all_goals exact FileTree.withinLimits_of_locate? rfl

/-- The plan of that tree covers its files. -/
theorem exists_covers_mixedEntries :
    mixedEntries.find? [fullStop] = some mixedEntries.root ∧
      mixedEntries.root.entries.Lawful ∧
      (∀ chain node, mixedEntries.root.entries.Below chain node →
        mixedEntries.WithinLimits (Path.below [fullStop] chain)) ∧
      ∃ plan scan, mixedEntries.plan oneLanguage [fullStop] = .ok plan ∧
        ofRoot mixedEntries oneLanguage [fullStop] = .ok scan ∧ scan.plan = plan ∧
        plan.Covers mixedEntries oneLanguage [fullStop] mixedEntries.root.entries ∧
        scan.failures.length =
          plan.files.countP fun file => (mixedEntries.read? file.path).isNone :=
  ⟨rfl, mixedEntries_lawful, mixedEntries_within, exists_covers mixedEntries oneLanguage [fullStop]
    rfl mixedEntries_lawful mixedEntries_within⟩

-- In the order of whole paths the link would come first, since a full stop is less than a slash.
example : (mixedEntries.walk? [fullStop]).map (List.map Visit.path) =
    some [[fullStop], Text.utf8 "./a".toList, Text.utf8 "./a/x.c".toList, Text.utf8 "./a.c".toList,
      Text.utf8 "./notes".toList] := by
  cbv

end Scan

end LineCensus
