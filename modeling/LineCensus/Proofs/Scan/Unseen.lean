import LineCensus.Proofs.FileTree.Growth
import LineCensus.Proofs.Scan.FileLog
import LineCensus.Registry.Standard

/-!
# What a scan does not see

Files without a language, directories without files that have one, links to directories, links that
lead nowhere and special entries may be added to a tree, and the scan of a directory gives the same
tally with the same orders (`Scan.tally_eq_of_addsUnseen`). The links that were there must not
resolve through an added place. A link with the name of a source file that led nowhere could lead to
an added file, and then it would be counted.

The walk sorts the added names in with the others. At each level the names that were there are met
in the same order (`FileTree.flatMap_eq_of_ascending`), and nothing that is planned is met at the
added ones.
-/
namespace LineCensus

namespace FileTree

/-- An entry of a directory at a place is nothing that is counted. -/
inductive Unrecognised (tree : FileTree) (registry : Registry) (directory : List EntryName)
    (name : EntryName) : Prop where
  /-- It is a regular file without a language. -/
  | file {node : Node} (there : tree.at? (directory ++ [name]) = some node)
    (regular : node.isRegular) (unknown : registry.resolve? (Utf8.decode name) = none)
  /-- It is a directory. -/
  | directory {entries : Entries} (there : tree.at? (directory ++ [name]) = some (.directory entries))
  /-- It is no file, directory or link. -/
  | special (there : tree.at? (directory ++ [name]) = some .special)
  /-- It is a link to a directory. -/
  | linkToDirectory {target : Path} {passed : List (List EntryName)} {ending : List EntryName}
    {entries : Entries} (there : tree.at? (directory ++ [name]) = some (.link target))
    (resolves : tree.Resolves directory name passed ending)
    (isDirectory : tree.at? ending = some (.directory entries))
  /-- It is a link that leads nowhere. -/
  | linkToNothing {target : Path} (there : tree.at? (directory ++ [name]) = some (.link target))
    (nowhere : ∀ passed ending, ¬ tree.Resolves directory name passed ending)

/-- A tree becomes another one by adding what is not counted, where no link that was there resolves
through an added place. -/
structure AddsUnseen (registry : Registry) (before after : FileTree) : Prop where
  /-- The first tree is lawful. -/
  beforeLawful : before.Lawful
  /-- The other tree is lawful. -/
  afterLawful : after.Lawful
  /-- Everything is still at its place. -/
  growth : before.GrowsTo after
  /-- What is added is not counted. With a directory that is added, all entries in it are. -/
  unseen : ∀ directory name, Added before after (directory ++ [name]) →
    after.Unrecognised registry directory name
  /-- A link that was there resolves to no added place, and through none. -/
  links : ∀ directory name target, before.at? (directory ++ [name]) = some (.link target) →
    ∀ passed ending, after.Resolves directory name passed ending →
      ∀ visited ∈ passed, ¬ Added before after visited

/-- The entries of a directory are what is at the places of their names. -/
def Lists (tree : FileTree) (place : List EntryName) (entries : Entries) : Prop :=
  ∀ name, entries.find? name = tree.at? (place ++ [name])

/-- The files to count that a walk meets at an entry, if there is one. -/
def filesAt (tree : FileTree) (registry : Registry) (root path : Path) (name : EntryName)
    (found : Option Node) : List SourceFile :=
  (found.elim [] (tree.visits (path.entry name) name)).filterMap (registry.sourceFile? root)

/-- An entry of a directory below a path is below the path. -/
theorem entry_below (path : Path) (chain : List EntryName) (name : EntryName) :
    (path.below chain).entry name = path.below (chain ++ [name]) := by
  unfold Path.below
  rw [List.foldl_append]
  rfl

section Levels

/-- Items that give nothing can be left out. -/
theorem flatMap_filter_of_nil {α β : Type} {keep : α → Bool} {give : α → List β} (items : List α)
    (empty : ∀ item ∈ items, keep item = false → give item = []) :
    (items.filter keep).flatMap give = items.flatMap give := by
  induction items with
  | nil => rfl
  | cons item others step =>
    obtain ⟨first, rest⟩ := List.forall_mem_cons.mp empty
    rw [List.filter_cons, List.flatMap_cons]
    split
    · rw [List.flatMap_cons, step rest]
    · next left_out => rw [step rest, first (by simpa using left_out), List.nil_append]

/-- Ascending names give what they give among more ascending names, where the others give
nothing. -/
theorem flatMap_eq_of_ascending {β : Type} {names more : List EntryName}
    {give again : EntryName → List β} (ascending : names.Pairwise (· < ·))
    (moreAscending : more.Pairwise (· < ·)) (among : names ⊆ more)
    (same : ∀ name ∈ names, give name = again name)
    (empty : ∀ name ∈ more, name ∉ names → again name = []) :
    names.flatMap give = more.flatMap again := by
  have kept : names = more.filter fun name => decide (name ∈ names) := by
    refine List.Pairwise.eq_of_mem_iff ascending (moreAscending.filter _) fun name => ?_
    rw [List.mem_filter, decide_eq_true_iff]
    exact ⟨fun inside => ⟨among inside, inside⟩, And.right⟩
  have added : ∀ name ∈ more, decide (name ∈ names) = false → again name = [] :=
    fun name inside out => empty name inside (by simpa using out)
  rw [← flatMap_filter_of_nil more added, ← kept]
  exact List.flatMap_congr same

variable {tree : FileTree} {registry : Registry} {root path : Path} {place : List EntryName}
  {entries : Entries}

/-- The files to count at the entries of a directory are those at the names of its entries. -/
theorem filterMap_inNameOrder (lawful : entries.Lawful) (lists : tree.Lists place entries) :
    (inNameOrder (tree.entryVisits path entries)).filterMap (registry.sourceFile? root) =
      (entries.inOrder.map Prod.fst).flatMap fun name =>
        tree.filesAt registry root path name (tree.at? (place ++ [name])) := by
  rw [inNameOrder_entryVisits, List.filterMap_flatMap, List.flatMap_map]
  refine List.flatMap_congr fun entry inside => ?_
  have listed : entries.find? entry.1 = some entry.2 :=
    lawful.find?_eq_some_iff.mpr (entries.inOrder_perm.mem_iff.mp inside)
  unfold filesAt
  rw [← lists, listed]
  rfl

/-- The names of the entries of a directory are those of the places below it. -/
theorem mem_names_iff (lawful : entries.Lawful) (lists : tree.Lists place entries)
    (name : EntryName) :
    name ∈ entries.inOrder.map Prod.fst ↔ (tree.at? (place ++ [name])).isSome := by
  rw [← lists, (entries.inOrder_perm.map Prod.fst).mem_iff, Option.isSome_iff_exists]
  simp only [lawful.find?_eq_some_iff, List.mem_map]
  constructor
  · rintro ⟨⟨_, node⟩, listed, rfl⟩
    exact ⟨node, listed⟩
  · rintro ⟨node, listed⟩
    exact ⟨_, listed, rfl⟩

/-- The names of the entries are ascending. -/
theorem pairwise_names (lawful : entries.Lawful) :
    (entries.inOrder.map Prod.fst).Pairwise (· < ·) := by
  obtain ⟨distinct, _, _⟩ := lawful
  exact List.pairwise_map.mpr (Entries.pairwise_inOrder distinct)

/-- A directory lists what is in it. -/
theorem lists_of_at? (there : tree.at? place = some (.directory entries)) :
    tree.Lists place entries := by
  intro name
  rw [at?_concat, there]
  rfl

end Levels

section Walks

variable {registry : Registry} {before after : FileTree} {root : Path} {rootFollowed : List Path}
  {base chain : List EntryName} {name : EntryName}

/-- What was at a place resolves through no added place. -/
theorem AddsUnseen.old (adds : AddsUnseen registry before after) {directory : List EntryName}
    {node : Node} (there : before.at? (directory ++ [name]) = some node)
    (enters : name.Enters) {passed : List (List EntryName)} {ending : List EntryName}
    (resolves : after.Resolves directory name passed ending) :
    ∀ visited ∈ passed, ¬ Added before after visited := by
  have itself : ¬ Added before after (directory ++ [name]) := fun added => by
    cases there.symm.trans added.1
  by_cases isLink : ∃ target, node = .link target
  · obtain ⟨target, rfl⟩ := isLink
    exact adds.links directory name target there passed ending resolves
  · -- the route of what is no link passes its place and no other
    obtain ⟨followed, route, _⟩ := resolves
    obtain ⟨_, found, grows⟩ := adds.growth.still _ _ there
    rw [route_cons_iff, if_neg enters.named, if_neg enters.notAbove, found] at route
    obtain ⟨_, later, rfl, onward⟩ := route
    suffices none_later : later = [] by
      subst none_later
      exact List.forall_mem_singleton.mpr itself
    cases grows with
    | directory =>
      cases onward
      rfl
    | kept =>
      cases node with
      | link target => exact absurd ⟨target, rfl⟩ isLink
      | directory =>
        cases onward
        rfl
      | file | unreadable | special => exact onward.2.2.1

/-- What was below a directory denotes what it did, perhaps with further entries. -/
theorem AddsUnseen.find?_below (adds : AddsUnseen registry before after)
    (spells : before.Spells root rootFollowed base) {node : Node}
    (there : before.at? (base ++ chain ++ [name]) = some node) :
    Option.Rel Node.GrowsTo (before.find? (root.below (chain ++ [name])))
      (after.find? (root.below (chain ++ [name]))) := by
  obtain ⟨_, parent⟩ := exists_directory_of_concat there
  have named : name.Lawful := adds.beforeLawful.named there name (by simp)
  exact adds.growth.find?_below adds.beforeLawful adds.afterLawful spells parent named
    fun _ _ => adds.old there named.toEnters

/-- A path that denotes what it did, perhaps with further entries, is that of a regular file when it
was, with the same bytes. -/
theorem reads_of_grows {path : Path}
    (grows : Option.Rel Node.GrowsTo (before.find? path) (after.find? path)) :
    before.isRegular path = after.isRegular path ∧ before.read? path = after.read? path := by
  unfold isRegular read?
  generalize before.find? path = found at grows
  generalize after.find? path = foundNow at grows
  cases grows with
  | none => exact ⟨rfl, rfl⟩
  | some grows =>
    cases grows with
    | directory => exact ⟨rfl, rfl⟩
    | kept => exact ⟨rfl, rfl⟩

/-- An added link is no file. -/
theorem not_isRegular_of_unrecognised (afterLawful : after.Lawful)
    (spells : after.Spells root rootFollowed base) {target : Path}
    (there : after.at? (base ++ chain ++ [name]) = some (.link target))
    (unrecognised : after.Unrecognised registry (base ++ chain) name) :
    after.isRegular (root.below (chain ++ [name])) = false := by
  obtain ⟨_, parent⟩ := exists_directory_of_concat there
  have named : name.Lawful := afterLawful.named there name (by simp)
  unfold isRegular find? lookup?
  cases located : after.locate? true (root.below (chain ++ [name])) with
  | none => rfl
  | some reached =>
    obtain ⟨_, followed, passed, ending, route, rfl, few, targets⟩ :=
      (locate?_below_iff_route afterLawful spells parent named reached).mp located
    have resolves : after.Resolves (base ++ chain) name passed ending :=
      ⟨followed, route, by rw [List.length_append] at few; omega,
        fun target inside => targets target (List.mem_append_right _ inside)⟩
    cases unrecognised with
    | file found regular =>
      rw [there] at found
      cases found
      cases regular
    | directory found | special found => cases there.symm.trans found
    | linkToNothing _ nowhere => exact absurd resolves (nowhere _ _)
    | linkToDirectory _ otherResolves isDirectory =>
      obtain ⟨_, otherRoute, _⟩ := otherResolves
      obtain ⟨_, _, rfl⟩ := route.unique otherRoute
      rw [Option.map_some, here_positionAt isDirectory]
      rfl

/-- At an entry that was there, and is no directory, a walk meets the files to count that it met. -/
theorem filesAt_of_flat (adds : AddsUnseen registry before after)
    (spells : before.Spells root rootFollowed base) {node : Node} (flat : ¬ node.isDirectory)
    (there : before.at? (base ++ chain ++ [name]) = some node) :
    before.filesAt registry root (root.below chain) name (some node) =
      after.filesAt registry root (root.below chain) name (some node) := by
  have meets : before.meetsFile (root.below (chain ++ [name])) node =
      after.meetsFile (root.below (chain ++ [name])) node := by
    cases node with
    | link target => exact (reads_of_grows (adds.find?_below spells there)).1
    | _ => rfl
  unfold filesAt
  rw [Option.elim_some, Option.elim_some, visits_of_not_isDirectory flat,
    visits_of_not_isDirectory flat, entry_below, meets]

/-- An added regular file has no language. -/
theorem Unrecognised.languageOf?_eq_none {tree : FileTree} {directory : List EntryName} {node : Node}
    (unrecognised : tree.Unrecognised registry directory name)
    (there : tree.at? (directory ++ [name]) = some node) (regular : node.isRegular) :
    registry.languageOf? name = none := by
  cases unrecognised with
  | file _ _ unknown => exact unknown
  | directory found | special found | linkToDirectory found | linkToNothing found =>
    cases there.symm.trans found
    cases regular

/-- At an added entry that is no directory, a walk meets nothing to count. -/
theorem filesAt_of_unrecognised (afterLawful : after.Lawful)
    (spells : after.Spells root rootFollowed base) {node : Node} (flat : ¬ node.isDirectory)
    (there : after.at? (base ++ chain ++ [name]) = some node)
    (unrecognised : after.Unrecognised registry (base ++ chain) name) :
    after.filesAt registry root (root.below chain) name (some node) = [] := by
  unfold filesAt
  rw [Option.elim_some, visits_of_not_isDirectory flat, entry_below]
  split
  · next meets =>
    have unknown : registry.languageOf? name = none := by
      refine unrecognised.languageOf?_eq_none there ?_
      cases node with
      | link target =>
        have passes := not_isRegular_of_unrecognised afterLawful spells there unrecognised
        exact absurd meets (Bool.eq_false_iff.mp passes)
      | _ => exact meets
    unfold Registry.sourceFile?
    simp [unknown]
  · rfl

/-- At a directory a walk meets the files to count of its entries, if they can be listed. -/
theorem filesAt_directory (tree : FileTree) (registry : Registry) (root : Path)
    (chain : List EntryName) (name : EntryName) (entries : Entries) :
    tree.filesAt registry root (root.below chain) name (some (.directory entries)) =
      if fits (root.below (chain ++ [name])) then
        (inNameOrder (tree.entryVisits (root.below (chain ++ [name])) entries)).filterMap
          (registry.sourceFile? root)
      else [] := by
  unfold filesAt
  rw [Option.elim_some, entry_below, visits]
  split
  · rfl
  · rfl

/-- A walk of a directory meets the same files to count after the additions. The directory may be an
added one, and then it had no entries. -/
theorem filterMap_entryVisits_eq (adds : AddsUnseen registry before after)
    (spells : before.Spells root rootFollowed base) (chain : List EntryName)
    {entries grown : Entries}
    (lawful : entries.Lawful) (grownLawful : grown.Lawful)
    (lists : before.Lists (base ++ chain) entries)
    (there : after.at? (base ++ chain) = some (.directory grown)) :
    (inNameOrder (before.entryVisits (root.below chain) entries)).filterMap
        (registry.sourceFile? root) =
      (inNameOrder (after.entryVisits (root.below chain) grown)).filterMap
        (registry.sourceFile? root) := by
  induction grownLawful generalizing chain entries with
  | @intro grown distinct names inner step =>
    have grownLawful : grown.Lawful := .intro distinct names inner
    have listsGrown := lists_of_at? there
    have before_iff := mem_names_iff lawful lists
    have after_iff := mem_names_iff grownLawful listsGrown
    have listed : ∀ {name inside}, after.at? (base ++ chain ++ [name]) = some (.directory inside) →
        (name, .directory inside) ∈ grown :=
      fun found => grownLawful.find?_eq_some_iff.mp ((listsGrown _).trans found)
    rw [filterMap_inNameOrder lawful lists, filterMap_inNameOrder grownLawful listsGrown]
    refine flatMap_eq_of_ascending (pairwise_names lawful) (pairwise_names grownLawful)
      ?among ?same ?fresh
    case among =>
      intro name inside
      obtain ⟨_, found⟩ := Option.isSome_iff_exists.mp ((before_iff name).mp inside)
      obtain ⟨_, foundNow, _⟩ := adds.growth.still _ _ found
      exact (after_iff name).mpr (Option.isSome_of_eq_some foundNow)
    case same =>
      intro name inside
      obtain ⟨_, found⟩ := Option.isSome_iff_exists.mp ((before_iff name).mp inside)
      obtain ⟨_, foundNow, grows⟩ := adds.growth.still _ _ found
      rw [found, foundNow]
      cases grows with
      | kept flat => exact filesAt_of_flat adds spells flat found
      | directory held holds =>
        rw [filesAt_directory, filesAt_directory]
        rw [List.append_assoc] at found
        have same := step name holds (listed foundNow) (chain ++ [name])
          (adds.beforeLawful.inside found) (lists_of_at? found)
          (by rwa [List.append_assoc] at foundNow)
        rw [same]
    case fresh =>
      intro name inside new
      obtain ⟨node, foundNow⟩ := Option.isSome_iff_exists.mp ((after_iff name).mp inside)
      have missing : before.at? (base ++ chain ++ [name]) = none := by
        rw [← Option.not_isSome_iff_eq_none, ← before_iff]
        exact new
      rw [foundNow]
      by_cases isDirectory : node.isDirectory
      · obtain ⟨holds, rfl⟩ := Node.isDirectory_iff.mp isDirectory
        have nothing : before.Lists (base ++ (chain ++ [name])) [] := by
          intro entry
          rw [at?_concat, ← List.append_assoc, missing]
          rfl
        have same := step name holds (listed foundNow) (chain ++ [name]) .nil nothing
          (by rwa [List.append_assoc] at foundNow)
        rw [filesAt_directory, ← same, filterMap_inNameOrder .nil nothing]
        split
        · simp [Entries.inOrder]
        · rfl
      · exact filesAt_of_unrecognised adds.afterLawful (adds.growth.spells spells) isDirectory
          foundNow (adds.unseen _ _ ⟨missing, Option.isSome_of_eq_some foundNow⟩)

end Walks

end FileTree

namespace Scan

open FileTree
open Entries (forall_below_cons forall_below_nil)

/-- The tally of a file is made from its bytes. -/
theorem tallyFile_eq_of_read? {before after : FileTree} {file : SourceFile}
    (read : before.read? file.path = after.read? file.path) :
    before.tallyFile file = after.tallyFile file := by
  unfold FileTree.tallyFile FileTree.countFile
  rw [read]

/-- A planned file lies below the scanned directory. -/
theorem exists_below_of_mem_plan {tree : FileTree} {registry : Registry} {root : Path}
    {entries : Entries} {file : SourceFile}
    (planned : file ∈ (inNameOrder (tree.entryVisits root entries)).filterMap
      (registry.sourceFile? root)) :
    ∃ chain node, entries.Below chain node ∧ file.path = root.below chain := by
  obtain ⟨visit, met, found⟩ := List.mem_filterMap.mp planned
  cases visit with
  | directory => cases found
  | file path name =>
    obtain ⟨_, _, rfl⟩ := Option.map_eq_some_iff.mp found
    exact exists_below_of_mem_entryVisits tree root entries (mem_inNameOrder.mp met)

/-- When only what is not counted is added to a tree, and no link that was there resolves through
it, the scan of a directory plans the same files in the same order and gives the same tally. -/
theorem tally_eq_of_addsUnseen {registry : Registry} {before after : FileTree}
    (adds : AddsUnseen registry before after) {root : Path} {entries : Entries}
    (isDirectory : before.find? root = some (.directory entries)) :
    ∃ scan later, ofRoot before registry root = .ok scan ∧ ofRoot after registry root = .ok later ∧
      later.plan.files = scan.plan.files ∧ later.tally = scan.tally := by
  obtain ⟨followed, base, spells, there, short, few, targets⟩ :=
    exists_spells adds.beforeLawful isDirectory
  obtain ⟨grown, foundNow⟩ := adds.growth.directory there
  have isDirectoryNow : after.find? root = some (.directory grown) :=
    (adds.growth.spells spells).find?_eq adds.afterLawful foundNow short few targets
  obtain ⟨plan, planned, files⟩ := plan_of_directory before registry isDirectory
  obtain ⟨planNow, plannedNow, filesNow⟩ := plan_of_directory after registry isDirectoryNow
  have lawful := adds.beforeLawful.inside there
  have same : planNow.files = plan.files := by
    have atBase : base ++ [] = base := List.append_nil base
    rw [files, filesNow]
    exact (filterMap_entryVisits_eq adds spells [] lawful (adds.afterLawful.inside foundNow)
      (atBase.symm ▸ lists_of_at? there) (atBase.symm ▸ foundNow)).symm
  have tallies : plan.files.map before.tallyFile = plan.files.map after.tallyFile := by
    refine List.map_congr_left fun file inside => tallyFile_eq_of_read? ?_
    obtain ⟨chain, node, below, path⟩ := exists_below_of_mem_plan (files ▸ inside)
    obtain ⟨front, name, rfl⟩ := below.exists_concat
    have place := at?_of_below lawful there below
    rw [← List.append_assoc] at place
    rw [path]
    exact (reads_of_grows (adds.find?_below spells place)).2
  refine ⟨⟨plan, _, tallyFiles before plan.files⟩, ⟨planNow, _, tallyFiles after planNow.files⟩,
    by unfold ofRoot; rw [planned], by unfold ofRoot; rw [plannedNow], same, ?_⟩
  unfold tallyFiles
  rw [same, tallies]

/-- Entries of a directory with a file and a link to it. -/
def fewEntries : Entries :=
  [(Text.utf8 "a.c".toList, .file (Text.utf8 "int x;\n".toList)),
    (Text.utf8 "l.c".toList, .link (Text.utf8 "a.c".toList))]

/-- The same entries with others among them that are not counted: a link that leads nowhere, a
directory with a special entry, a file without a language, and a link to the directory itself. -/
def moreEntries : Entries :=
  [(Text.utf8 "a.c".toList, .file (Text.utf8 "int x;\n".toList)),
    (Text.utf8 "gone.c".toList, .link (Text.utf8 "x.c".toList)),
    (Text.utf8 "l.c".toList, .link (Text.utf8 "a.c".toList)),
    (Text.utf8 "new".toList, .directory [(Text.utf8 "pipe.c".toList, .special)]),
    (Text.utf8 "notes".toList, .file (Text.utf8 "x\n".toList)),
    (Text.utf8 "up.c".toList, .link (Text.utf8 ".".toList))]

/-- A tree with the few entries. -/
def fewTree : FileTree := ⟨.directory fewEntries, []⟩

/-- A tree with the others too. -/
def moreTree : FileTree := ⟨.directory moreEntries, []⟩

/-- Every node of the one tree is in the other. -/
theorem fewTree_growsTo : fewTree.GrowsTo moreTree where
  workingDirectory := rfl
  still := by
    have still : ∀ place node, fewTree.at? place = some node → ∀ found,
        fewTree.at? place = some found → ∃ grown, moreTree.at? place = some grown ∧
          found.GrowsTo grown := by
      refine forall_at? ?root (forall_below_cons ?file forall_below_nil
        (forall_below_cons ?link forall_below_nil forall_below_nil))
      case root =>
        rintro _ ⟨⟩
        exact ⟨_, rfl, .directory _ _⟩
      case file =>
        rintro _ ⟨⟩
        exact ⟨_, rfl, .kept nofun⟩
      case link =>
        rintro _ ⟨⟩
        exact ⟨_, rfl, .kept nofun⟩
    exact fun place node there => still place node there node there

/-- The link that was there resolves to the file that was there. -/
theorem resolves_of_moreTree {passed : List (List EntryName)} {ending : List EntryName}
    (resolves : moreTree.Resolves [] (Text.utf8 "l.c".toList) passed ending) :
    passed = [[Text.utf8 "l.c".toList], [Text.utf8 "a.c".toList]] := by
  obtain ⟨_, route, _⟩ := resolves
  have known : moreTree.Route [] [Text.utf8 "l.c".toList] [Text.utf8 "a.c".toList]
      [[Text.utf8 "l.c".toList], [Text.utf8 "a.c".toList]] [Text.utf8 "a.c".toList] :=
    .link ⟨by decide, by decide, by decide⟩ rfl (by decide)
      (.leaf ⟨by decide, by decide, by decide⟩ rfl nofun nofun)
  exact (route.unique known).2.1

/-- The one tree becomes the other by adding what is not counted. -/
theorem addsUnseen_moreTree : AddsUnseen .standard fewTree moreTree where
  beforeLawful := {
    entries := .cons (by decide) (by decide) .nil (.cons (by decide) (by decide) .nil .nil)
    working := rfl }
  afterLawful := {
    entries := .cons (by decide) (by decide) .nil (.cons (by decide) (by decide) .nil
      (.cons (by decide) (by decide) .nil (.cons (by decide) (by decide)
        (.cons (by decide) (by decide) .nil .nil) (.cons (by decide) (by decide) .nil
          (.cons (by decide) (by decide) .nil .nil)))))
    working := rfl }
  growth := fewTree_growsTo
  unseen := by
    have each : ∀ place node, moreTree.at? place = some node → Added fewTree moreTree place →
        moreTree.Unrecognised .standard place.dropLast (lastName place) := by
      refine forall_at? ?root (forall_below_cons ?a forall_below_nil
        (forall_below_cons ?gone forall_below_nil (forall_below_cons ?l forall_below_nil
          (forall_below_cons ?new (forall_below_cons ?pipe forall_below_nil forall_below_nil)
            (forall_below_cons ?notes forall_below_nil
              (forall_below_cons ?up forall_below_nil forall_below_nil))))))
      case root => exact fun added => nomatch added.1
      case a => exact fun added => nomatch added.1
      case l => exact fun added => nomatch added.1
      case gone =>
        refine fun _ => .linkToNothing rfl fun passed ending resolves => ?_
        have lost : moreTree.follow true maxLinks (moreTree.positionAt [])
            [Text.utf8 "gone.c".toList] = none := rfl
        have found := (follow_eq_some_iff_resolves rfl).mpr ⟨passed, ending, resolves, rfl⟩
        cases lost.symm.trans found
      case new => exact fun _ => .directory rfl
      case pipe => exact fun _ => .special rfl
      case notes => exact fun _ => .file rfl rfl (by decide +kernel)
      case up =>
        have resolves : moreTree.Resolves [] (Text.utf8 "up.c".toList)
            [[Text.utf8 "up.c".toList]] [] :=
          ⟨[Text.utf8 ".".toList], .link ⟨by decide, by decide, by decide⟩ rfl (by decide)
            (.stay (.inr rfl) .arrived), by decide, by decide⟩
        exact fun _ => .linkToDirectory rfl resolves rfl
    intro directory name added
    obtain ⟨node, found⟩ := Option.isSome_iff_exists.mp added.2
    have known := each _ node found added
    rwa [List.dropLast_concat, lastName_concat] at known
  links := by
    have each : ∀ place node, fewTree.at? place = some node → ∀ target,
        fewTree.at? place = some (.link target) → ∀ passed ending,
          moreTree.Resolves place.dropLast (lastName place) passed ending →
          ∀ visited ∈ passed, ¬ Added fewTree moreTree visited := by
      refine forall_at? nofun (forall_below_cons nofun forall_below_nil
        (forall_below_cons ?link forall_below_nil forall_below_nil))
      intro _ _ passed ending resolves visited inside added
      have there : ∀ place ∈ [[Text.utf8 "l.c".toList], [Text.utf8 "a.c".toList]],
          (fewTree.at? place).isSome := by decide
      have old := there visited (resolves_of_moreTree resolves ▸ inside)
      rw [added.1] at old
      cases old
    intro directory name target there passed ending resolves
    refine each _ _ there target there passed ending ?_
    rwa [List.dropLast_concat, lastName_concat]

/-- Their scans give the same tally. -/
theorem tally_eq_of_addsUnseen_moreTree :
    AddsUnseen .standard fewTree moreTree ∧
      fewTree.find? [fullStop] = some (.directory fewEntries) ∧
      ∃ scan later, ofRoot fewTree .standard [fullStop] = .ok scan ∧
        ofRoot moreTree .standard [fullStop] = .ok later ∧
        later.plan.files = scan.plan.files ∧ later.tally = scan.tally :=
  ⟨addsUnseen_moreTree, rfl, tally_eq_of_addsUnseen addsUnseen_moreTree rfl⟩

end Scan

end LineCensus
