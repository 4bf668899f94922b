import LineCensus.Proofs.Text.ByteOrder
import LineCensus.Proofs.FileTree.Below
import LineCensus.Proofs.FileTree.Leads

/-!
# The order of a walk

In a lawful directory no two entries have one name, and each name can be one (`Entries.Lawful`). A
walk of such a directory meets each file in it once, and the files come in the order of the chains
of names under which they lie: the first name that differs decides, and of two names the bytes
(`FileTree.exists_charts`). This is not the order of the whole paths, where a slash would be
compared with the bytes of names.

The reason is the same at each level. The entries are sorted, all that is met at an entry lies under
its name, and so it comes before all that is met at a later entry (`FileTree.Charts.cons`).
-/
namespace LineCensus

/-- A name that an entry of a directory can have. -/
structure EntryName.Lawful (name : EntryName) : Prop extends EntryName.Enters name where
  /-- The name is one segment of a path. -/
  slashFree : slash ∉ name

instance (name : EntryName) : Decidable name.Lawful :=
  decidable_of_iff ((¬ (name = [] ∨ name = [fullStop]) ∧ name ≠ [fullStop, fullStop] ∧
      name.length ≤ FileTree.maxNameLength) ∧ slash ∉ name)
    ⟨fun laws => ⟨⟨laws.1.1, laws.1.2.1, laws.1.2.2⟩, laws.2⟩,
      fun lawful => ⟨⟨lawful.named, lawful.notAbove, lawful.short⟩, lawful.slashFree⟩⟩

/-- A name that an entry can have is a name in the path of the entry. -/
theorem EntryName.Lawful.proper {name : EntryName} (lawful : name.Lawful) : name.Proper :=
  ⟨lawful.slashFree, by_contra fun unnamed => lawful.named (Path.not_isName_iff.mp unnamed)⟩

/-- Entries as a directory can have them: on all levels the names are different and can be names of
entries. -/
inductive Entries.Lawful : Entries → Prop
  /-- The entries of a directory are lawful, and those in each directory among them are. -/
  | intro {entries : Entries} (distinct : (entries.map Prod.fst).Nodup)
    (named : ∀ entry ∈ entries, entry.1.Lawful)
    (inner : ∀ name inside, (name, .directory inside) ∈ entries → Lawful inside) : Lawful entries

namespace Entries

variable {entries others : Entries} {entry : EntryName × Node} {chain : List EntryName}
  {node : Node}

/-- Entries in the order of the bytes of their names. -/
def inOrder (entries : Entries) : Entries :=
  entries.mergeSort fun left right => left.1.atMost right.1

/-- Entries in order are the same entries. -/
theorem inOrder_perm (entries : Entries) : entries.inOrder.Perm entries :=
  List.mergeSort_perm _ _

/-- Names that are different are ascending in order. -/
theorem pairwise_inOrder (distinct : (entries.map Prod.fst).Nodup) :
    entries.inOrder.Pairwise fun left right => left.1 < right.1 :=
  Bytes.pairwise_mergeSort Prod.fst distinct

/-- What lies in a directory lies there whatever the order of its entries is. -/
theorem Below.of_subset (below : entries.Below chain node) (among : entries ⊆ others) :
    Entries.Below others chain node := by
  cases below with
  | here listed => exact .here (among listed)
  | inside listed below => exact .inside (among listed) below

/-- A node lies under its first entry or under a later one. -/
theorem below_cons_iff : Entries.Below (entry :: others) chain node ↔
    Entries.Below [entry] chain node ∨ Entries.Below others chain node := by
  constructor
  · intro below
    cases below with
    | here listed =>
      rcases List.mem_cons.mp listed with rfl | later
      · exact .inl (.here List.mem_cons_self)
      · exact .inr (.here later)
    | inside listed below =>
      rcases List.mem_cons.mp listed with rfl | later
      · exact .inl (.inside List.mem_cons_self below)
      · exact .inr (.inside later below)
  · rintro (below | below)
    · exact below.of_subset (List.cons_subset_cons entry (List.nil_subset others))
    · exact below.cons entry

/-- What lies under an entry lies under its name, and is the entry or lies in it. -/
theorem below_singleton_iff : Entries.Below [entry] chain node ↔
    chain = [entry.1] ∧ node = entry.2 ∨ ∃ inside rest, entry.2 = .directory inside ∧
      chain = entry.1 :: rest ∧ Entries.Below inside rest node := by
  constructor
  · intro below
    cases below with
    | here listed =>
      cases List.mem_singleton.mp listed
      exact .inl ⟨rfl, rfl⟩
    | inside listed below =>
      cases List.mem_singleton.mp listed
      exact .inr ⟨_, _, rfl, rfl, below⟩
  · rcases entry with ⟨name, found⟩
    rintro (⟨rfl, rfl⟩ | ⟨inside, rest, same, rfl, below⟩)
    · exact .here List.mem_cons_self
    · cases same
      exact .inside List.mem_cons_self below

/-- Nothing lies in a directory without entries. -/
theorem not_below_nil : ¬ Entries.Below [] chain node := by
  intro below
  cases below with
  | here listed => cases listed
  | inside listed _ => cases listed

/-- A law holds of all chains of names in a directory without entries. -/
theorem forall_below_nil {law : List EntryName → Prop} :
    ∀ chain node, Entries.Below [] chain node → law chain :=
  fun _ _ below => absurd below not_below_nil

/-- All chains of names in a directory are the name of its first entry, the chains that go on from
there, and those of its other entries. -/
theorem forall_below_cons {name : EntryName} {first : Node} {law : List EntryName → Prop}
    (itself : law [name])
    (inner : ∀ chain node, first.entries.Below chain node → law (name :: chain))
    (rest : ∀ chain node, Entries.Below others chain node → law chain) :
    ∀ chain node, Entries.Below ((name, first) :: others) chain node → law chain := by
  intro chain node below
  rcases below_cons_iff.mp below with below | below
  · rcases below_singleton_iff.mp below with ⟨rfl, _⟩ | ⟨inside, chain, same, rfl, deeper⟩
    · exact itself
    · cases same
      exact inner chain node deeper
  · exact rest chain node below

/-- A directory without entries is lawful. -/
theorem Lawful.nil : Entries.Lawful [] :=
  .intro List.nodup_nil nofun nofun

/-- Lawful entries stay so with one more of another name. -/
theorem Lawful.cons {name : EntryName} (named : name.Lawful) (fresh : name ∉ others.map Prod.fst)
    (inner : Entries.Lawful node.entries) (rest : Entries.Lawful others) :
    Entries.Lawful ((name, node) :: others) := by
  obtain ⟨distinct, othersNamed, othersInner⟩ := rest
  refine .intro (List.nodup_cons.mpr ⟨fresh, distinct⟩)
    (List.forall_mem_cons.mpr ⟨named, othersNamed⟩) fun other inside listed => ?_
  rcases List.mem_cons.mp listed with same | later
  · cases same
    exact inner
  · exact othersInner other inside later

/-- The names on the way to a node in a lawful directory are lawful. -/
theorem Below.lawful (below : entries.Below chain node) (lawful : entries.Lawful) :
    ∀ name ∈ chain, name.Lawful := by
  induction below with
  | here listed =>
    obtain ⟨_, named, _⟩ := lawful
    exact List.forall_mem_singleton.mpr (named _ listed)
  | inside listed _ step =>
    obtain ⟨_, named, inner⟩ := lawful
    exact List.forall_mem_cons.mpr ⟨named _ listed, step (inner _ _ listed)⟩

/-- The names on the way are names in its path. -/
theorem Below.proper (below : entries.Below chain node) (lawful : entries.Lawful) :
    ∀ name ∈ chain, name.Proper :=
  fun name inside => (below.lawful lawful name inside).proper

/-- In a lawful directory one node lies under a chain of names. -/
theorem Below.unique {other : Node} (below : entries.Below chain node)
    (otherBelow : entries.Below chain other) (lawful : entries.Lawful) : node = other := by
  induction below with
  | here listed =>
    obtain ⟨distinct, _, _⟩ := lawful
    cases otherBelow with
    | here otherListed =>
      cases List.inj_on_of_nodup_map distinct listed otherListed rfl
      rfl
    | inside _ below => cases below
  | inside listed below step =>
    obtain ⟨distinct, _, inner⟩ := lawful
    cases otherBelow with
    | here _ => cases below
    | inside otherListed otherBelow =>
      cases List.inj_on_of_nodup_map distinct listed otherListed rfl
      exact step otherBelow (inner _ _ listed)

/-- The chains of names to nodes in a directory have at least one name. -/
theorem Below.ne_nil (below : entries.Below chain node) : chain ≠ [] := by
  rintro rfl
  cases below

/-- In a lawful directory different chains of names have different paths. -/
theorem Below.chain_unique {path : Path} {other : List EntryName} {found : Node}
    (below : entries.Below chain node) (otherBelow : entries.Below other found)
    (lawful : entries.Lawful) (same : path.below chain = path.below other) : chain = other :=
  Path.eq_of_below_eq below.ne_nil otherBelow.ne_nil (below.proper lawful)
    (otherBelow.proper lawful) same

end Entries

namespace FileTree

variable {tree : FileTree} {path : Path} {entries others : Entries} {name : EntryName}
  {node : Node} {chains : List (List EntryName)} {visits : List Visit}

/-- A walk meets a file at a node with a path. -/
def meetsFile (tree : FileTree) (path : Path) : Node → Bool
  | .link _ => tree.isRegular path
  | node => node.isRegular

/-- A walk meets a directory, or a file, or nothing at a node that is no directory. -/
theorem visits_of_not_isDirectory (flat : ¬ node.isDirectory) :
    tree.visits path name node = if tree.meetsFile path node then [.file path name] else [] := by
  cases node with
  | directory entries => exact absurd rfl flat
  | file bytes =>
    rw [visits]
    rfl
  | unreadable =>
    rw [visits]
    rfl
  | special =>
    rw [visits]
    rfl
  | link target =>
    rw [visits]
    rfl

end FileTree

/-- The last name of a chain, which is that of the node at its end. -/
def lastName (chain : List EntryName) : EntryName := chain.getLast?.getD []

@[simp] theorem lastName_concat (front : List EntryName) (name : EntryName) :
    lastName (front ++ [name]) = name := by
  unfold lastName
  rw [List.getLast?_concat, Option.getD_some]

/-- The file at the end of a chain of names from a path on. -/
def Visit.fileBelow (path : Path) (chain : List EntryName) : Visit :=
  .file (path.below chain) (lastName chain)

namespace FileTree

variable {tree : FileTree} {path : Path} {entries others : Entries} {name : EntryName}
  {node : Node} {chains : List (List EntryName)} {visits : List Visit}

/-- Chains of names chart what is met at entries: they are those of the files below the entries,
each once and in their order, and the files met are the ones at their ends. -/
structure Charts (tree : FileTree) (path : Path) (entries : Entries)
    (chains : List (List EntryName)) (visits : List Visit) : Prop where
  /-- The chains ascend. -/
  ordered : chains.Pairwise (· < ·)
  /-- The chains are those of the files. -/
  mem_iff : ∀ chain, chain ∈ chains ↔
    ∃ node, entries.Below chain node ∧ tree.meetsFile (path.below chain) node
  /-- The files are met in this order. -/
  met : visits.filter (fun visit => ¬ visit.isDirectory) = chains.map (Visit.fileBelow path)

/-- No file is met without entries. -/
theorem Charts.nil : Charts tree path [] [] [] where
  ordered := .nil
  mem_iff chain := by
    refine iff_of_false List.not_mem_nil ?_
    rintro ⟨_, below, _⟩
    exact Entries.not_below_nil below
  met := rfl

/-- What is met at an entry comes before what is met at entries with greater names. -/
theorem Charts.cons {entry : EntryName × Node} {front : List (List EntryName)}
    {first : List Visit} (entryCharts : Charts tree path [entry] front first)
    (otherCharts : Charts tree path others chains visits)
    (before : ∀ other ∈ others, entry.1 < other.1) :
    Charts tree path (entry :: others) (front ++ chains) (first ++ visits) where
  ordered := by
    refine List.pairwise_append.mpr ⟨entryCharts.ordered, otherCharts.ordered, ?_⟩
    intro chain inFront other inRest
    obtain ⟨_, below, _⟩ := (entryCharts.mem_iff chain).mp inFront
    obtain ⟨_, otherBelow, _⟩ := (otherCharts.mem_iff other).mp inRest
    have begins : ∃ rest, chain = entry.1 :: rest := by
      rcases Entries.below_singleton_iff.mp below with ⟨rfl, _⟩ | ⟨_, rest, _, rfl, _⟩
      · exact ⟨[], rfl⟩
      · exact ⟨rest, rfl⟩
    obtain ⟨rest, rfl⟩ := begins
    cases otherBelow with
    | here listed => exact List.cons_lt_cons_iff.mpr (.inl (before _ listed))
    | inside listed _ => exact List.cons_lt_cons_iff.mpr (.inl (before _ listed))
  mem_iff chain := by
    have lies : ∀ node, Entries.Below (entry :: others) chain node ↔
        Entries.Below [entry] chain node ∨ Entries.Below others chain node :=
      fun _ => Entries.below_cons_iff
    rw [List.mem_append, entryCharts.mem_iff, otherCharts.mem_iff, ← exists_or]
    simp only [lies, or_and_right]
  met := by rw [List.filter_append, entryCharts.met, otherCharts.met, List.map_append]

/-- A node that is no directory is met itself, if it is a file. -/
theorem charts_of_not_isDirectory (flat : ¬ node.isDirectory) :
    Charts tree path [(name, node)]
      (if tree.meetsFile (path.entry name) node then [[name]] else [])
      (tree.visits (path.entry name) name node) := by
  have only : ∀ chain found, Entries.Below [(name, node)] chain found ↔
      chain = [name] ∧ found = node := by
    intro chain found
    rw [Entries.below_singleton_iff]
    refine or_iff_left ?_
    rintro ⟨inside, _, rfl, _⟩
    exact flat rfl
  rw [visits_of_not_isDirectory flat]
  refine ⟨?ordered, fun chain => ?mem, ?met⟩
  case ordered =>
    split
    · exact List.pairwise_singleton _ _
    · exact .nil
  case mem =>
    simp only [only, and_assoc, exists_and_left, exists_eq_left]
    split
    · next meets =>
      rw [List.mem_singleton]
      constructor
      · rintro rfl
        exact ⟨rfl, meets⟩
      · exact And.left
    · next passes =>
      refine iff_of_false List.not_mem_nil ?_
      rintro ⟨rfl, meets⟩
      exact passes meets
  case met =>
    split
    · rfl
    · rfl

/-- What is met in a directory is met under its name. -/
theorem Charts.directory (inner : Charts tree (path.entry name) entries chains
      (inNameOrder (tree.entryVisits (path.entry name) entries)))
    (short : fits (path.entry name)) :
    Charts tree path [(name, .directory entries)] (chains.map (name :: ·))
      (tree.visits (path.entry name) name (.directory entries)) where
  ordered := List.pairwise_map.mpr (inner.ordered.imp fun before =>
    List.cons_lt_cons_iff.mpr (.inr ⟨rfl, before⟩))
  mem_iff chain := by
    rw [List.mem_map]
    constructor
    · rintro ⟨rest, inside, rfl⟩
      obtain ⟨node, below, meets⟩ := (inner.mem_iff rest).mp inside
      exact ⟨node, .inside List.mem_cons_self below, meets⟩
    · rintro ⟨node, below, meets⟩
      rcases Entries.below_singleton_iff.mp below with ⟨rfl, rfl⟩ | ⟨inside, rest, same, rfl, below⟩
      · cases meets
      · cases same
        exact ⟨rest, (inner.mem_iff rest).mpr ⟨node, below, meets⟩, rfl⟩
  met := by
    have ends : ∀ chain ∈ chains,
        Visit.fileBelow (path.entry name) chain = Visit.fileBelow path (name :: chain) := by
      intro chain inside
      obtain ⟨_, below, _⟩ := (inner.mem_iff chain).mp inside
      obtain ⟨front, last, rfl⟩ := below.exists_concat
      unfold Visit.fileBelow
      rw [← List.cons_append, lastName_concat, lastName_concat]
      rfl
    rw [FileTree.visits, if_pos short, List.filter_cons_of_neg (by simp [Visit.isDirectory]),
      inner.met, List.map_map]
    exact List.map_congr_left ends

/-- What is read off the files met can be read off their chains. -/
theorem Charts.filterMap_eq {α : Type} (charts : Charts tree path entries chains visits)
    {read : Visit → Option α} (skips : ∀ passed, read (.directory passed) = none) :
    visits.filterMap read = chains.filterMap fun chain => read (.fileBelow path chain) := by
  have files : visits.filterMap read =
      (visits.filter fun visit => ¬ visit.isDirectory).filterMap read := by
    rw [List.filterMap_filter]
    refine List.filterMap_congr fun visit _ => ?_
    cases visit with
    | directory passed => exact skips passed
    | file _ _ => rfl
  rw [files, charts.met, List.filterMap_map]
  rfl

/-- What is met at entries is met at each of them. -/
theorem inNameOrder_entryVisits (tree : FileTree) (path : Path) (entries : Entries) :
    inNameOrder (tree.entryVisits path entries) =
      entries.inOrder.flatMap fun entry => tree.visits (path.entry entry.1) entry.1 entry.2 := by
  have each : tree.entryVisits path entries = entries.map fun entry =>
      (entry.1, tree.visits (path.entry entry.1) entry.1 entry.2) := by
    induction entries with
    | nil => rfl
    | cons entry others step => rw [entryVisits, step, List.map_cons]
  have sorted : (tree.entryVisits path entries).mergeSort
      (fun left right => left.1.atMost right.1) = entries.inOrder.map fun entry =>
        (entry.1, tree.visits (path.entry entry.1) entry.1 entry.2) := by
    rw [each]
    symm
    apply List.map_mergeSort
    exact fun _ _ _ _ => rfl
  unfold inNameOrder
  rw [sorted, List.flatMap_map]

/-- Entries with ascending names are charted one after another. -/
theorem exists_charts_of_ascending
    (ascending : entries.Pairwise fun left right => left.1 < right.1)
    (each : ∀ entry ∈ entries, ∃ chains, Charts tree path [entry] chains
      (tree.visits (path.entry entry.1) entry.1 entry.2)) :
    ∃ chains, Charts tree path entries chains (entries.flatMap fun entry =>
      tree.visits (path.entry entry.1) entry.1 entry.2) := by
  induction ascending with
  | nil => exact ⟨[], .nil⟩
  | cons before _ step =>
    obtain ⟨front, entryCharts⟩ := each _ List.mem_cons_self
    obtain ⟨chains, otherCharts⟩ :=
      step fun entry inside => each entry (List.mem_cons_of_mem _ inside)
    exact ⟨front ++ chains, entryCharts.cons otherCharts before⟩

/-- What is charted does not depend on the order in which the entries are given. -/
theorem Charts.perm (charts : Charts tree path entries chains visits)
    (perm : entries.Perm others) : Charts tree path others chains visits where
  ordered := charts.ordered
  mem_iff chain := by
    have lies : ∀ node, entries.Below chain node ↔ others.Below chain node := fun _ =>
      ⟨fun below => below.of_subset perm.subset, fun below => below.of_subset perm.symm.subset⟩
    rw [charts.mem_iff]
    simp only [lies]
  met := charts.met

/-- A walk of a lawful directory, where the directories below it can be listed, meets the files in
it in the order of their chains of names. -/
theorem exists_charts (tree : FileTree) (lawful : entries.Lawful)
    (short : ∀ chain inside, entries.Below chain (.directory inside) → fits (path.below chain)) :
    ∃ chains, Charts tree path entries chains (inNameOrder (tree.entryVisits path entries)) := by
  induction lawful generalizing path with
  | @intro entries distinct _ _ step =>
    have perm := entries.inOrder_perm
    have each : ∀ entry ∈ entries.inOrder, ∃ chains, Charts tree path [entry] chains
        (tree.visits (path.entry entry.1) entry.1 entry.2) := by
      rintro ⟨name, node⟩ inOrder
      have listed := perm.mem_iff.mp inOrder
      by_cases isDirectory : node.isDirectory
      · obtain ⟨inside, rfl⟩ := Node.isDirectory_iff.mp isDirectory
        have deeper : ∀ chain deep, Entries.Below inside chain (.directory deep) →
            fits (path.below (name :: chain)) :=
          fun chain deep below => short (name :: chain) deep (.inside listed below)
        obtain ⟨chains, inner⟩ := step name inside listed deeper
        exact ⟨_, inner.directory (short [name] inside (.here listed))⟩
      · exact ⟨_, charts_of_not_isDirectory isDirectory⟩
    obtain ⟨chains, charts⟩ :=
      exists_charts_of_ascending (Entries.pairwise_inOrder distinct) each
    rw [inNameOrder_entryVisits]
    exact ⟨chains, charts.perm perm⟩

end FileTree

end LineCensus
