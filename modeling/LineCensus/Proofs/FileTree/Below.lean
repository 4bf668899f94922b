import LineCensus.FileTree.Walk
import LineCensus.Proofs.Path.Below

/-!
# What lies below a directory

A node lies below a directory under a chain of names, one for each level (`Entries.Below`). A walk
meets files only at such chains, and at the paths that the chains have from its start
(`FileTree.exists_below_of_mem_entryVisits`).
-/
namespace LineCensus

/-- A node lies under a chain of names in a directory, where no link is followed. -/
inductive Entries.Below : Entries → List EntryName → Node → Prop
  /-- A node is an entry of the directory. -/
  | here {entries : Entries} {name : EntryName} {node : Node} (listed : (name, node) ∈ entries) :
    Below entries [name] node
  /-- A node lies in a directory that is an entry. -/
  | inside {entries inner : Entries} {name : EntryName} {chain : List EntryName} {node : Node}
    (listed : (name, .directory inner) ∈ entries) (below : Below inner chain node) :
    Below entries (name :: chain) node

/-- What lies in a directory lies there when it has one more entry. -/
theorem Entries.Below.cons {entries : Entries} {chain : List EntryName} {node : Node}
    (below : entries.Below chain node) (entry : EntryName × Node) :
    Entries.Below (entry :: entries) chain node := by
  cases below with
  | here listed => exact .here (List.mem_cons_of_mem entry listed)
  | inside listed below => exact .inside (List.mem_cons_of_mem entry listed) below

/-- A node below a directory lies under a last name. -/
theorem Entries.Below.exists_concat {entries : Entries} {chain : List EntryName} {node : Node}
    (below : entries.Below chain node) : ∃ front name, chain = front ++ [name] := by
  rcases chain.eq_nil_or_concat with rfl | ⟨front, name, rfl⟩
  · cases below
  · exact ⟨front, name, List.concat_eq_append⟩

/-- A name that an entry can have and that is a text without backslashes. -/
structure EntryName.Plain (name : EntryName) : Prop extends EntryName.Proper name where
  /-- The name is the bytes of a text. -/
  isText : ∃ text : Text, '\\' ∉ text ∧ name = text.utf8

/-- All names in a directory, on all levels, are plain. -/
def Entries.Plain (entries : Entries) : Prop :=
  ∀ chain node, entries.Below chain node → ∀ name ∈ chain, EntryName.Plain name

/-- There is no name in a directory without entries. -/
theorem Entries.Plain.nil : Entries.Plain [] := by
  intro chain node below
  cases below with
  | here listed => cases listed
  | inside listed _ => cases listed

/-- The names in a directory are plain when those of the entries and those in the entries are. -/
theorem Entries.Plain.cons {name : EntryName} {node : Node} {others : Entries}
    (named : name.Plain) (inner : Entries.Plain node.entries) (rest : Entries.Plain others) :
    Entries.Plain ((name, node) :: others) := by
  intro chain found below part inside
  cases below with
  | here listed =>
    cases List.mem_singleton.mp inside
    rcases List.mem_cons.mp listed with same | later
    · exact (Prod.mk.inj same).1 ▸ named
    · exact rest _ _ (.here later) _ inside
  | inside listed below =>
    rcases List.mem_cons.mp listed with same | later
    · cases same
      rcases List.mem_cons.mp inside with rfl | deeper
      · exact named
      · exact inner _ _ below part deeper
    · exact rest _ _ (.inside later below) part inside

/-- What is met in the order of the names is what is met at some entry. -/
theorem mem_inNameOrder {visits : List (EntryName × List Visit)} {visit : Visit} :
    visit ∈ inNameOrder visits ↔ ∃ entry ∈ visits, visit ∈ entry.2 := by
  unfold inNameOrder
  simp only [List.mem_flatMap, List.mem_mergeSort]

namespace FileTree

mutual

/-- A file met at a node is the node, or lies in it. -/
theorem exists_below_of_mem_visits (tree : FileTree) (path : Path) (name : EntryName)
    {reached : Path} {last : EntryName} : ∀ node, .file reached last ∈ tree.visits path name node →
      reached = path ∨ ∃ entries chain found, node = .directory entries ∧
        Entries.Below entries chain found ∧ reached = path.below chain
  | .file _, met => by
    unfold visits at met
    cases List.mem_singleton.mp met
    exact .inl rfl
  | .unreadable, met => by
    unfold visits at met
    cases List.mem_singleton.mp met
    exact .inl rfl
  | .special, met => by
    unfold visits at met
    cases met
  | .link _, met => by
    unfold visits at met
    split at met
    · cases List.mem_singleton.mp met
      exact .inl rfl
    · cases met
  | .directory entries, met => by
    unfold visits at met
    rcases List.mem_cons.mp met with same | met
    · cases same
    · split at met
      · obtain ⟨chain, found, below, same⟩ :=
          exists_below_of_mem_entryVisits tree path entries (mem_inNameOrder.mp met)
        exact .inr ⟨entries, chain, found, rfl, below, same⟩
      · cases met

/-- A file met at the entries of a directory lies in the directory. -/
theorem exists_below_of_mem_entryVisits (tree : FileTree) (path : Path)
    {reached : Path} {last : EntryName} : ∀ entries : Entries,
      (∃ entry ∈ tree.entryVisits path entries, .file reached last ∈ entry.2) →
      ∃ chain found, entries.Below chain found ∧ reached = path.below chain
  | [], met => by
    unfold entryVisits at met
    obtain ⟨entry, inside, _⟩ := met
    cases inside
  | (name, node) :: others, met => by
    unfold entryVisits at met
    obtain ⟨entry, inside, met⟩ := met
    rcases List.mem_cons.mp inside with rfl | later
    · rcases exists_below_of_mem_visits tree (path.entry name) name node met with
        rfl | ⟨inner, chain, found, rfl, below, rfl⟩
      · exact ⟨[name], node, .here List.mem_cons_self, rfl⟩
      · exact ⟨name :: chain, found, .inside List.mem_cons_self below, rfl⟩
    · obtain ⟨chain, found, below, same⟩ :=
        exists_below_of_mem_entryVisits tree path others ⟨entry, later, met⟩
      exact ⟨chain, found, below.cons (name, node), same⟩

end

/-- A directory has a path with at least one byte. -/
theorem ne_nil_of_find? {tree : FileTree} {path : Path} {node : Node}
    (found : tree.find? path = some node) : path ≠ [] := by
  rintro rfl
  cases found

end FileTree

end LineCensus
