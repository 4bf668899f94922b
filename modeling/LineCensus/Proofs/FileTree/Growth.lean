import LineCensus.Proofs.FileTree.Places

/-!
# Trees that grow

A tree grows to another one when everything in it is still at its place there: files, links and
special entries unchanged, and directories perhaps with further entries (`FileTree.GrowsTo`). Routes
in a tree stay routes when it grows (`FileTree.GrowsTo.route`). A route in the grown tree was one
before when it passes no place that was added (`FileTree.GrowsTo.route_of_kept`); through an added
place a link can lead where it led nowhere before.

Below a directory the node at a path is decided by the route from the place of the directory
(`FileTree.locate?_below_iff_route`). So a path still denotes the same when the tree grows, up
to the entries of directories (`FileTree.GrowsTo.find?_below`).
-/
namespace LineCensus

/-- A node stays what it is, except that a directory may get other entries. -/
inductive Node.GrowsTo : Node → Node → Prop where
  /-- A directory stays a directory. -/
  | directory (entries grown : Entries) : GrowsTo (.directory entries) (.directory grown)
  /-- Every other node stays the same. -/
  | kept {node : Node} (flat : ¬ node.isDirectory) : GrowsTo node node

namespace Entries

variable {entries : Entries} {name : EntryName} {node : Node}

/-- In a lawful directory the node under a name is that of the entry with the name. -/
theorem Lawful.find?_eq_some_iff (lawful : entries.Lawful) :
    entries.find? name = some node ↔ (name, node) ∈ entries := by
  obtain ⟨distinct, _, _⟩ := lawful
  unfold find?
  rw [List.lookup_eq_some_iff]
  constructor
  · rintro ⟨front, back, rfl, _⟩
    simp
  · intro listed
    obtain ⟨front, back, rfl⟩ := List.append_of_mem listed
    refine ⟨front, back, rfl, fun entry inside => ?_⟩
    rw [List.map_append, List.map_cons] at distinct
    have apart := (List.nodup_append.mp distinct).2.2 entry.1 (List.mem_map_of_mem inside) name
      List.mem_cons_self
    simpa using apart.symm

/-- In a lawful directory what is found under names has lawful names, and lawful entries. -/
theorem Lawful.descend? {parent found : Node} {chain : List EntryName}
    (lawful : parent.entries.Lawful) (there : parent.descend? chain = some found) :
    (∀ name ∈ chain, name.Lawful) ∧ found.entries.Lawful := by
  induction chain generalizing parent with
  | nil =>
    cases there
    exact ⟨nofun, lawful⟩
  | cons name others step =>
    rw [Node.descend?] at there
    obtain ⟨child, listed, deeper⟩ := Option.bind_eq_some_iff.mp there
    have inside := lawful.find?_eq_some_iff.mp listed
    obtain ⟨_, named, inner⟩ := lawful
    have childLawful : child.entries.Lawful := by
      cases child with
      | directory entries => exact inner _ _ inside
      | _ => exact .nil
    obtain ⟨othersNamed, foundLawful⟩ := step childLawful deeper
    exact ⟨List.forall_mem_cons.mpr ⟨named _ inside, othersNamed⟩, foundLawful⟩

end Entries

namespace FileTree

/-- A tree as a file system can have it: its directories are lawful, and the working directory is
there. -/
structure Lawful (tree : FileTree) : Prop where
  /-- The directories are lawful. -/
  entries : tree.root.entries.Lawful
  /-- The working directory is there. -/
  working : (tree.at? tree.workingDirectory).isSome

/-- A tree grows to another one: everything is still at its place. -/
structure GrowsTo (before after : FileTree) : Prop where
  /-- The working directory is the same. -/
  workingDirectory : after.workingDirectory = before.workingDirectory
  /-- What was at a place is there, perhaps with further entries. -/
  still : ∀ place node, before.at? place = some node →
    ∃ grown, after.at? place = some grown ∧ node.GrowsTo grown

/-- A place is added: something is there where nothing was before. -/
def Added (before after : FileTree) (place : List EntryName) : Prop :=
  before.at? place = none ∧ (after.at? place).isSome

/-- A path spells a place where a directory is, over the links that hold the followed paths. -/
structure Spells (tree : FileTree) (path : Path) (followed : List Path) (place : List EntryName) :
    Prop where
  /-- The path is not empty. -/
  nonempty : path ≠ []
  /-- Its segments lead to the place. -/
  route : ∃ passed, tree.Route (origin tree.workingDirectory path) path.segments followed passed place
  /-- A directory is there. -/
  isDirectory : ∃ entries, tree.at? place = some (.directory entries)

section Below

variable {tree : FileTree} {place base front back chain : List EntryName} {name : EntryName}
  {entries : Entries} {root : Path} {rootFollowed : List Path}

/-- A place with an entry is that of a directory. -/
theorem exists_directory_of_concat {node : Node} (there : tree.at? (place ++ [name]) = some node) :
    ∃ above, tree.at? place = some (.directory above) := by
  rw [at?_concat] at there
  obtain ⟨parent, found, listed⟩ := Option.bind_eq_some_iff.mp there
  cases parent with
  | directory above => exact ⟨above, found⟩
  | _ => cases listed

/-- There is a directory at each place on the way to a directory. -/
theorem exists_directory_of_append
    (there : tree.at? (front ++ back) = some (.directory entries)) :
    ∃ above, tree.at? front = some (.directory above) := by
  induction back using List.reverseRecOn generalizing entries with
  | nil => exact ⟨entries, by simpa using there⟩
  | append_singleton others name step =>
    rw [← List.append_assoc] at there
    obtain ⟨above, found⟩ := exists_directory_of_concat there
    exact step found

/-- The names on the way to a node can be names of entries. -/
theorem Lawful.named (lawful : tree.Lawful) {node : Node} (there : tree.at? place = some node) :
    ∀ name ∈ place, name.Lawful :=
  (lawful.entries.descend? there).1

/-- The entries of a directory are lawful. -/
theorem Lawful.inside (lawful : tree.Lawful) (there : tree.at? place = some (.directory entries)) :
    entries.Lawful :=
  (lawful.entries.descend? there).2

/-- Names lead down through directories. -/
theorem leads_down (lawful : tree.Lawful)
    (there : tree.at? (base ++ front) = some (.directory entries)) :
    tree.Leads (tree.positionAt base) front [] (tree.positionAt (base ++ front)) := by
  induction front generalizing base with
  | nil =>
    rw [List.append_nil]
    exact .arrived
  | cons name others step =>
    rw [List.append_cons] at there ⊢
    obtain ⟨above, found⟩ := exists_directory_of_append there
    have enters : name.Enters := (lawful.named found name (by simp)).toEnters
    have parent : (tree.at? base).isSome := isSome_at?_of_append (Option.isSome_of_eq_some found)
    refine .down enters ((find?_positionAt parent name).trans found) ?_
    rw [down_positionAt found]
    exact step there

/-- A path of a directory spells a place. -/
theorem exists_spells (lawful : tree.Lawful)
    (isDirectory : tree.find? root = some (.directory entries)) :
    ∃ followed place, tree.Spells root followed place ∧
      tree.at? place = some (.directory entries) ∧ fits root ∧ followed.length ≤ maxLinks ∧
      ∀ target ∈ followed, fits target := by
  unfold find? lookup? at isDirectory
  obtain ⟨reached, located, here⟩ := Option.map_eq_some_iff.mp isDirectory
  obtain ⟨short, followed, ⟨nonempty, leads⟩, few, targets⟩ := locate?_eq_some_iff.mp located
  have working : (tree.at? (origin tree.workingDirectory root)).isSome :=
    isSome_at?_origin lawful.working root
  have begins : tree.start tree.workingPosition root =
      tree.positionAt (origin tree.workingDirectory root) := start_positionAt tree _ root
  rw [begins, leads_iff_route working] at leads
  obtain ⟨passed, place, route, rfl⟩ := leads
  obtain ⟨node, there⟩ := Option.isSome_iff_exists.mp (route.isSome_at? working)
  rw [here_positionAt there] at here
  subst here
  exact ⟨followed, place, ⟨nonempty, ⟨passed, route⟩, entries, there⟩, there, short, few, targets⟩

/-- A path leads to the position at the place that it spells. -/
theorem Spells.leadsTo (lawful : tree.Lawful) (spells : tree.Spells root rootFollowed base) :
    tree.LeadsTo root rootFollowed (tree.positionAt base) := by
  obtain ⟨passed, route⟩ := spells.route
  have begins : tree.start tree.workingPosition root =
      tree.positionAt (origin tree.workingDirectory root) := start_positionAt tree _ root
  refine ⟨spells.nonempty, ?_⟩
  rw [begins]
  exact route.leads (isSome_at?_origin lawful.working root)

/-- A path within the limits denotes the directory at the place that it spells. -/
theorem Spells.find?_eq (lawful : tree.Lawful) (spells : tree.Spells root rootFollowed base)
    (there : tree.at? base = some (.directory entries)) (short : fits root)
    (few : rootFollowed.length ≤ maxLinks) (targets : ∀ target ∈ rootFollowed, fits target) :
    tree.find? root = some (.directory entries) := by
  have located : tree.locate? true root = some (tree.positionAt base) :=
    locate?_eq_some_iff.mpr ⟨short, rootFollowed, spells.leadsTo lawful, few, targets⟩
  unfold find? lookup?
  rw [located, Option.map_some, here_positionAt there]

/-- What is found under names lies below them. -/
theorem below_of_descend? {parent node : Node} (there : parent.descend? chain = some node)
    (nonempty : chain ≠ []) : parent.entries.Below chain node := by
  induction chain generalizing parent with
  | nil => exact absurd rfl nonempty
  | cons name others step =>
    rw [Node.descend?] at there
    obtain ⟨child, listed, deeper⟩ := Option.bind_eq_some_iff.mp there
    have inside : (name, child) ∈ parent.entries := by
      obtain ⟨front, back, same, _⟩ := List.lookup_eq_some_iff.mp listed
      simp [same]
    by_cases last : others = []
    · subst last
      cases deeper
      exact .here inside
    · have below := step deeper last
      cases child with
      | directory entries => exact .inside inside below
      | _ => exact absurd below Entries.not_below_nil

/-- A law holds of all places that are there when it holds of the root and of all chains of names
below it. -/
theorem forall_at? {law : List EntryName → Prop} (itself : law [])
    (inner : ∀ chain node, tree.root.entries.Below chain node → law chain) :
    ∀ place node, tree.at? place = some node → law place := by
  intro place node there
  by_cases root : place = []
  · exact root ▸ itself
  · exact inner place node (below_of_descend? there root)

/-- What lies below a directory is at the place of its chain of names. -/
theorem at?_of_below (lawful : entries.Lawful) (there : tree.at? base = some (.directory entries))
    {node : Node} (below : entries.Below chain node) : tree.at? (base ++ chain) = some node := by
  induction below generalizing base with
  | here listed =>
    rw [at?_concat, there]
    exact lawful.find?_eq_some_iff.mpr listed
  | inside listed _ step =>
    rw [List.append_cons]
    refine step ?_ ?_
    · obtain ⟨_, _, inner⟩ := lawful
      exact inner _ _ listed
    · rw [at?_concat, there]
      exact lawful.find?_eq_some_iff.mpr listed

/-- A path below a directory denotes where the route along its last name ends. -/
theorem locate?_below_iff_route (lawful : tree.Lawful)
    (spells : tree.Spells root rootFollowed base)
    (there : tree.at? (base ++ front) = some (.directory entries)) (named : name.Lawful)
    (reached : Position) :
    tree.locate? true (root.below (front ++ [name])) = some reached ↔
      fits (root.below (front ++ [name])) ∧ ∃ followed passed ending,
        tree.Route (base ++ front) [name] followed passed ending ∧
        reached = tree.positionAt ending ∧ (rootFollowed ++ followed).length ≤ maxLinks ∧
        ∀ target ∈ rootFollowed ++ followed, fits target := by
  obtain ⟨above, baseThere⟩ := spells.isDirectory
  have baseDirectory : (tree.positionAt base).here.isDirectory := by
    rw [here_positionAt baseThere]
    rfl
  have middleDirectory : (tree.positionAt (base ++ front)).here.isDirectory := by
    rw [here_positionAt there]
    rfl
  have proper : ∀ part ∈ front ++ [name], part.Proper := by
    intro part inside
    rcases List.mem_append.mp inside with early | last
    · exact (lawful.named there part (List.mem_append_right _ early)).proper
    · exact (List.mem_singleton.mp last ▸ named).proper
  rw [locate?_eq_some_iff]
  refine and_congr_right fun _ => ?_
  simp only [leadsTo_below_iff (spells.leadsTo lawful) baseDirectory (List.concat_ne_nil name front) proper,
    leads_append_iff (leads_down lawful there) middleDirectory,
    leads_iff_route (Option.isSome_of_eq_some there), List.nil_append]
  constructor
  · rintro ⟨_, ⟨followed, rfl, _, rfl, passed, ending, route, same⟩, few, targets⟩
    exact ⟨followed, passed, ending, route, same, few, targets⟩
  · rintro ⟨followed, passed, ending, route, same, few, targets⟩
    exact ⟨_, ⟨followed, rfl, followed, rfl, passed, ending, route, same⟩, few, targets⟩

end Below

section Extension

variable {before after : FileTree} {place segments ending : List EntryName} {followed : List Path}
  {passed : List (List EntryName)} {root : Path}

/-- A directory is still one. -/
theorem GrowsTo.directory (growth : before.GrowsTo after) {entries : Entries}
    (there : before.at? place = some (.directory entries)) :
    ∃ grown, after.at? place = some (.directory grown) := by
  obtain ⟨_, found, grows⟩ := growth.still _ _ there
  cases grows with
  | directory _ grown => exact ⟨grown, found⟩
  | kept => exact ⟨entries, found⟩

/-- A node that is no directory is still the same. -/
theorem GrowsTo.flat (growth : before.GrowsTo after) {node : Node} (flat : ¬ node.isDirectory)
    (there : before.at? place = some node) : after.at? place = some node := by
  obtain ⟨_, found, grows⟩ := growth.still _ _ there
  cases grows with
  | directory => exact absurd rfl flat
  | kept => exact found

/-- A route is still one. -/
theorem GrowsTo.route (growth : before.GrowsTo after)
    (route : before.Route place segments followed passed ending) :
    after.Route place segments followed passed ending := by
  induction route with
  | arrived => exact .arrived
  | stay still _ step => exact .stay still step
  | up _ step => exact .up step
  | down enters there _ step =>
    obtain ⟨_, found⟩ := growth.directory there
    exact .down enters found step
  | link enters there nonempty _ step =>
    exact .link enters (growth.flat nofun there) nonempty step
  | @leaf _ _ node enters there noDirectory noLink =>
    have flat : ¬ node.isDirectory := fun isDirectory =>
      let ⟨entries, same⟩ := Node.isDirectory_iff.mp isDirectory
      noDirectory entries same
    exact .leaf enters (growth.flat flat there) noDirectory noLink

/-- What is at a place that was not added was there before. -/
theorem GrowsTo.before_of_kept (growth : before.GrowsTo after) {grown : Node}
    (found : after.at? place = some grown) (old : ¬ Added before after place) :
    ∃ node, before.at? place = some node ∧ node.GrowsTo grown := by
  cases there : before.at? place with
  | none => exact absurd ⟨there, Option.isSome_of_eq_some found⟩ old
  | some node =>
    obtain ⟨_, again, grows⟩ := growth.still _ _ there
    rw [found] at again
    cases again
    exact ⟨node, rfl, grows⟩

/-- A route through no added place was one before. -/
theorem GrowsTo.route_of_kept (growth : before.GrowsTo after)
    (route : after.Route place segments followed passed ending)
    (old : ∀ visited ∈ passed, ¬ Added before after visited) :
    before.Route place segments followed passed ending := by
  induction route with
  | arrived => exact .arrived
  | stay still _ step => exact .stay still (step old)
  | up _ step => exact .up (step old)
  | down enters found _ step =>
    obtain ⟨first, later⟩ := List.forall_mem_cons.mp old
    obtain ⟨_, there, grows⟩ := growth.before_of_kept found first
    cases grows with
    | directory => exact .down enters there (step later)
    | kept => exact .down enters there (step later)
  | link enters found nonempty _ step =>
    obtain ⟨first, later⟩ := List.forall_mem_cons.mp old
    obtain ⟨_, there, grows⟩ := growth.before_of_kept found first
    cases grows with
    | kept => exact .link enters there nonempty (step later)
  | leaf enters found noDirectory noLink =>
    obtain ⟨_, there, grows⟩ := growth.before_of_kept found (old _ List.mem_cons_self)
    cases grows with
    | directory _ entries => exact absurd rfl (noDirectory entries)
    | kept => exact .leaf enters there noDirectory noLink

/-- A path still spells the place of a directory. -/
theorem GrowsTo.spells (growth : before.GrowsTo after)
    (spells : before.Spells root followed place) : after.Spells root followed place := by
  obtain ⟨_, there⟩ := spells.isDirectory
  obtain ⟨passed, route⟩ := spells.route
  refine ⟨spells.nonempty, ⟨passed, ?_⟩, growth.directory there⟩
  rw [growth.workingDirectory]
  exact growth.route route

/-- A path below a directory, whose last name resolves through no added place, denotes what it did,
perhaps with further entries. -/
theorem GrowsTo.find?_below (growth : before.GrowsTo after) (beforeLawful : before.Lawful)
    (afterLawful : after.Lawful) {rootFollowed : List Path} {base front : List EntryName}
    {name : EntryName} {entries : Entries} (spells : before.Spells root rootFollowed base)
    (there : before.at? (base ++ front) = some (.directory entries)) (named : name.Lawful)
    (old : ∀ passed ending, after.Resolves (base ++ front) name passed ending →
      ∀ visited ∈ passed, ¬ Added before after visited) :
    Option.Rel Node.GrowsTo (before.find? (root.below (front ++ [name])))
      (after.find? (root.below (front ++ [name]))) := by
  obtain ⟨grown, found⟩ := growth.directory there
  have beforeIff := locate?_below_iff_route beforeLawful spells there named
  have afterIff := locate?_below_iff_route afterLawful (growth.spells spells) found named
  unfold find? lookup?
  cases located : before.locate? true (root.below (front ++ [name])) with
  | some reached =>
    obtain ⟨short, followed, passed, ending, route, rfl, limits⟩ := (beforeIff reached).mp located
    rw [(afterIff _).mpr ⟨short, followed, passed, ending, growth.route route, rfl, limits⟩]
    obtain ⟨node, ends⟩ := Option.isSome_iff_exists.mp
      (route.isSome_at? (Option.isSome_of_eq_some there))
    obtain ⟨_, endsStill, grows⟩ := growth.still _ _ ends
    rw [Option.map_some, Option.map_some, here_positionAt ends, here_positionAt endsStill]
    exact .some grows
  | none =>
    suffices nowhere : after.locate? true (root.below (front ++ [name])) = none by
      rw [nowhere]
      exact .none
    rw [Option.eq_none_iff_forall_ne_some]
    intro reached located'
    obtain ⟨short, followed, passed, ending, route, rfl, few, targets⟩ :=
      (afterIff reached).mp located'
    have resolves : after.Resolves (base ++ front) name passed ending :=
      ⟨followed, route, by rw [List.length_append] at few; omega,
        fun target inside => targets target (List.mem_append_right _ inside)⟩
    have kept := growth.route_of_kept route (old passed ending resolves)
    have again := (beforeIff _).mpr ⟨short, followed, passed, ending, kept, rfl, few, targets⟩
    rw [located] at again
    cases again

end Extension

end FileTree

end LineCensus
