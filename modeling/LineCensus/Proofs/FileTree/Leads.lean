import LineCensus.FileTree.Resolve
import LineCensus.Proofs.Path.Stem

/-!
# Where paths lead

What a path denotes is told here without limits: segments lead from one position to another, and a
link on the way leads on with the path that it holds (`FileTree.Leads`). A dangling link leads
nowhere, and neither does a link in a loop, since a relation has no endless way. Each way records
the links that it follows, so the limits can be said of it afterwards (`FileTree.WithinLimits`), and
where a path keeps within them, it denotes what it leads to (`FileTree.locate?_iff`).

A way through a directory goes on from the directory (`FileTree.leads_append_iff`). A path below a
directory therefore leads where the names on the way lead from the directory, however the path of
the directory is spelled (`FileTree.leadsTo_below_iff`).
-/
namespace LineCensus

/-- A directory is a node with entries. -/
theorem Node.isDirectory_iff {node : Node} :
    node.isDirectory ↔ ∃ entries, node = .directory entries := by
  cases node with
  | directory entries => exact iff_of_true rfl ⟨entries, rfl⟩
  | file bytes => exact iff_of_false Bool.false_ne_true nofun
  | unreadable => exact iff_of_false Bool.false_ne_true nofun
  | special => exact iff_of_false Bool.false_ne_true nofun
  | link target => exact iff_of_false Bool.false_ne_true nofun

/-- A segment that is taken to the entry of its name. -/
structure EntryName.Enters (segment : EntryName) : Prop where
  /-- It does not stand for the directory itself. -/
  named : ¬ (segment = [] ∨ segment = [fullStop])
  /-- It does not stand for the directory above. -/
  notAbove : segment ≠ [fullStop, fullStop]
  /-- It is no longer than names can be. -/
  short : segment.length ≤ FileTree.maxNameLength

namespace FileTree

/-- Segments lead from a position to another one, over the links that hold the followed paths. -/
inductive Leads (tree : FileTree) : Position → List EntryName → List Path → Position → Prop where
  /-- No segment is left. -/
  | arrived {position : Position} : Leads tree position [] [] position
  /-- The segment stands for the directory itself. -/
  | stay {position reached : Position} {segment : EntryName} {rest : List EntryName}
    {followed : List Path} (still : segment = [] ∨ segment = [fullStop])
    (onward : Leads tree position rest followed reached) :
    Leads tree position (segment :: rest) followed reached
  /-- The segment stands for the directory above. -/
  | up {position reached : Position} {rest : List EntryName} {followed : List Path}
    (onward : Leads tree position.up rest followed reached) :
    Leads tree position ([fullStop, fullStop] :: rest) followed reached
  /-- The segment names a directory. -/
  | down {position reached : Position} {segment : EntryName} {rest : List EntryName}
    {followed : List Path} {entries : Entries} (enters : segment.Enters)
    (listed : position.here.entries.find? segment = some (.directory entries))
    (onward : Leads tree (position.down (.directory entries)) rest followed reached) :
    Leads tree position (segment :: rest) followed reached
  /-- The segment names a link, and the path that the link holds is taken in its place. -/
  | link {position reached : Position} {segment : EntryName} {rest : List EntryName}
    {followed : List Path} {target : Path} (enters : segment.Enters)
    (listed : position.here.entries.find? segment = some (.link target)) (nonempty : target ≠ [])
    (onward : Leads tree (tree.start position target) (target.segments ++ rest) followed reached) :
    Leads tree position (segment :: rest) (target :: followed) reached
  /-- The last segment names a node that is no directory and no link. -/
  | leaf {position : Position} {segment : EntryName} {node : Node} (enters : segment.Enters)
    (listed : position.here.entries.find? segment = some node)
    (noDirectory : ∀ entries, node ≠ .directory entries) (noLink : ∀ target, node ≠ .link target) :
    Leads tree position [segment] [] (position.down node)

/-- A path leads to a position over the links that hold the followed paths. -/
def LeadsTo (tree : FileTree) (path : Path) (followed : List Path) (reached : Position) : Prop :=
  path ≠ [] ∧ tree.Leads (tree.start tree.workingPosition path) path.segments followed reached

/-- A path keeps within the limits: it is short enough, and if it leads anywhere, the links on the
way are few enough and hold paths that are short enough. -/
structure WithinLimits (tree : FileTree) (path : Path) : Prop where
  /-- The path is short enough. -/
  fits : fits path
  /-- The links on the way are no more than are followed. -/
  links : ∀ followed reached, tree.LeadsTo path followed reached → followed.length ≤ maxLinks
  /-- The paths that they hold are short enough. -/
  targets : ∀ followed reached, tree.LeadsTo path followed reached → ∀ target ∈ followed,
    FileTree.fits target

section Leads

variable {tree : FileTree} {position reached : Position} {followed : List Path}

/-- No segment leads nowhere else. -/
theorem leads_nil_iff : tree.Leads position [] followed reached ↔
    followed = [] ∧ reached = position := by
  constructor
  · rintro ⟨⟩
    exact ⟨rfl, rfl⟩
  · rintro ⟨rfl, rfl⟩
    exact .arrived

/-- Where segments lead is decided by the first of them. -/
theorem leads_cons_iff {segment : EntryName} {rest : List EntryName} :
    tree.Leads position (segment :: rest) followed reached ↔
      if segment = [] ∨ segment = [fullStop] then tree.Leads position rest followed reached
      else if segment = [fullStop, fullStop] then tree.Leads position.up rest followed reached
      else if segment.length > maxNameLength then False
      else match position.here.entries.find? segment with
        | none => False
        | some (.directory entries) =>
          tree.Leads (position.down (.directory entries)) rest followed reached
        | some (.link target) => target ≠ [] ∧ ∃ more, followed = target :: more ∧
          tree.Leads (tree.start position target) (target.segments ++ rest) more reached
        | some other => rest = [] ∧ followed = [] ∧ reached = position.down other := by
  constructor
  · intro leads
    cases leads with
    | stay still onward => rwa [if_pos still]
    | up onward => rwa [if_neg (by decide), if_pos rfl]
    | down enters listed onward =>
      rw [if_neg enters.named, if_neg enters.notAbove, if_neg (Nat.not_lt.mpr enters.short), listed]
      exact onward
    | link enters listed nonempty onward =>
      rw [if_neg enters.named, if_neg enters.notAbove, if_neg (Nat.not_lt.mpr enters.short), listed]
      exact ⟨nonempty, _, rfl, onward⟩
    | @leaf _ _ node enters listed noDirectory noLink =>
      rw [if_neg enters.named, if_neg enters.notAbove, if_neg (Nat.not_lt.mpr enters.short), listed]
      cases node with
      | directory entries => exact absurd rfl (noDirectory entries)
      | link target => exact absurd rfl (noLink target)
      | file bytes => exact ⟨rfl, rfl, rfl⟩
      | unreadable => exact ⟨rfl, rfl, rfl⟩
      | special => exact ⟨rfl, rfl, rfl⟩
  · intro onward
    split at onward
    · next still => exact .stay still onward
    split at onward
    · next above => exact above ▸ .up onward
    split at onward
    · exact onward.elim
    next named notAbove long =>
    have enters : segment.Enters := ⟨named, notAbove, Nat.not_lt.mp long⟩
    split at onward
    · exact onward.elim
    · next listed => exact .down enters listed onward
    · next listed =>
      obtain ⟨nonempty, more, rfl, onward⟩ := onward
      exact .link enters listed nonempty onward
    · next noDirectory noLink listed =>
      obtain ⟨rfl, rfl, rfl⟩ := onward
      exact .leaf enters listed noDirectory noLink

/-- Where a segment leads that is taken to an entry is decided by the entry. -/
theorem leads_enters_iff {segment : EntryName} {rest : List EntryName} (enters : segment.Enters) :
    tree.Leads position (segment :: rest) followed reached ↔
      match position.here.entries.find? segment with
      | none => False
      | some (.directory entries) =>
        tree.Leads (position.down (.directory entries)) rest followed reached
      | some (.link target) => target ≠ [] ∧ ∃ more, followed = target :: more ∧
        tree.Leads (tree.start position target) (target.segments ++ rest) more reached
      | some other => rest = [] ∧ followed = [] ∧ reached = position.down other := by
  rw [leads_cons_iff, if_neg enters.named, if_neg enters.notAbove,
    if_neg (Nat.not_lt.mpr enters.short)]

/-- Segments lead on from where they first arrive. -/
theorem leads_iff_advance {segments : List EntryName} :
    tree.Leads position segments followed reached ↔
      match advance true position segments with
      | .found found => followed = [] ∧ reached = found
      | .nowhere => False
      | .link origin target rest => target ≠ [] ∧ ∃ more, followed = target :: more ∧
        tree.Leads (tree.start origin target) (target.segments ++ rest) more reached := by
  induction segments generalizing position with
  | nil => exact leads_nil_iff
  | cons segment rest step =>
    rw [leads_cons_iff]
    unfold advance
    split
    · exact step
    split
    · exact step
    split
    · exact Iff.rfl
    -- a node that is no directory and no link can only be the last
    have ends : ∀ node : Node, (rest = [] ∧ followed = [] ∧ reached = position.down node) ↔
        match (if rest = [] then Arrival.found (position.down node) else .nowhere) with
        | .found found => followed = [] ∧ reached = found
        | .nowhere => False
        | .link origin target rest => target ≠ [] ∧ ∃ more, followed = target :: more ∧
          tree.Leads (tree.start origin target) (target.segments ++ rest) more reached := by
      intro node
      split_ifs with last
      · exact and_iff_right last
      · exact iff_of_false (fun leads => last leads.1) id
    cases position.here.entries.find? segment with
    | none => exact Iff.rfl
    | some node =>
      cases node with
      | directory entries => exact step
      | link target =>
        simp only
        rw [if_neg (by simp)]
      | file bytes => exact ends _
      | unreadable => exact ends _
      | special => exact ends _

/-- Segments that arrive without a link lead there. -/
theorem leads_iff_of_found {segments : List EntryName} {found : Position}
    (arrives : advance true position segments = .found found) :
    tree.Leads position segments followed reached ↔ followed = [] ∧ reached = found := by
  rw [leads_iff_advance, arrives]

/-- Segments that arrive nowhere lead nowhere. -/
theorem not_leads_of_nowhere {segments : List EntryName}
    (arrives : advance true position segments = .nowhere) :
    ¬ tree.Leads position segments followed reached := by
  rw [leads_iff_advance, arrives]
  exact id

/-- Segments that arrive at a link lead where the path that it holds leads with the segments left
over. -/
theorem leads_iff_of_link {segments rest : List EntryName} {origin : Position} {target : Path}
    (arrives : advance true position segments = .link origin target rest) :
    tree.Leads position segments followed reached ↔ target ≠ [] ∧ ∃ more,
      followed = target :: more ∧
        tree.Leads (tree.start origin target) (target.segments ++ rest) more reached := by
  rw [leads_iff_advance, arrives]

/-- Segments that arrive at a link whose path is the same segments from the same position lead
nowhere. -/
theorem not_leads_of_loop {segments rest : List EntryName} {origin : Position} {target : Path}
    (arrives : advance true position segments = .link origin target rest)
    (back : tree.start origin target = position) (again : target.segments ++ rest = segments) :
    ¬ tree.Leads position segments followed reached := by
  induction followed with
  | nil =>
    rw [leads_iff_of_link arrives]
    rintro ⟨_, _, same, _⟩
    cases same
  | cons first followed step =>
    rw [leads_iff_of_link arrives, back, again]
    rintro ⟨_, _, same, onward⟩
    cases same
    exact step onward

/-- There is one way to go. -/
theorem Leads.unique {segments : List EntryName} {other : List Path} {ending : Position}
    (leads : tree.Leads position segments followed reached)
    (otherLeads : tree.Leads position segments other ending) :
    followed = other ∧ reached = ending := by
  induction followed generalizing position segments other with
  | nil =>
    cases arrives : advance true position segments with
    | found found =>
      obtain ⟨_, rfl⟩ := (leads_iff_of_found arrives).mp leads
      obtain ⟨rfl, rfl⟩ := (leads_iff_of_found arrives).mp otherLeads
      exact ⟨rfl, rfl⟩
    | nowhere => exact absurd leads (not_leads_of_nowhere arrives)
    | link origin target rest =>
      obtain ⟨_, _, same, _⟩ := (leads_iff_of_link arrives).mp leads
      cases same
  | cons target followed step =>
    cases arrives : advance true position segments with
    | found found => cases ((leads_iff_of_found arrives).mp leads).1
    | nowhere => exact absurd leads (not_leads_of_nowhere arrives)
    | link origin target rest =>
      obtain ⟨_, more, same, onward⟩ := (leads_iff_of_link arrives).mp leads
      obtain ⟨_, more', rfl, onward'⟩ := (leads_iff_of_link arrives).mp otherLeads
      cases same
      obtain ⟨rfl, rfl⟩ := step onward onward'
      exact ⟨rfl, rfl⟩

/-- What segments are followed to is where they lead over so many links that can be followed. -/
theorem follow_eq_some_iff {links : Nat} {segments : List EntryName} :
    tree.follow true links position segments = some reached ↔
      ∃ followed, tree.Leads position segments followed reached ∧ followed.length ≤ links ∧
        ∀ target ∈ followed, fits target := by
  induction links generalizing position segments with
  | zero =>
    unfold follow
    cases arrives : advance true position segments with
    | found found => simpa [leads_iff_of_found arrives] using eq_comm
    | nowhere => simp [not_leads_of_nowhere arrives]
    | link origin target rest => simp [leads_iff_of_link arrives]
  | succ links step =>
    unfold follow
    cases arrives : advance true position segments with
    | found found => simpa [leads_iff_of_found arrives] using eq_comm
    | nowhere => simp [not_leads_of_nowhere arrives]
    | link origin target rest =>
      simp only [leads_iff_of_link arrives]
      split
      · next refused =>
        refine iff_of_false (by simp) ?_
        rintro ⟨_, ⟨nonempty, more, rfl, _⟩, _, short⟩
        exact refused.elim nonempty fun long => long (short target List.mem_cons_self)
      · next allowed =>
        obtain ⟨nonempty, short⟩ := not_or.mp allowed
        rw [step]
        constructor
        · rintro ⟨more, onward, few, rest⟩
          refine ⟨target :: more, ⟨nonempty, more, rfl, onward⟩, Nat.succ_le_succ few, ?_⟩
          exact List.forall_mem_cons.mpr ⟨not_not.mp short, rest⟩
        · rintro ⟨_, ⟨_, more, rfl, onward⟩, few, rest⟩
          exact ⟨more, onward, Nat.le_of_succ_le_succ few, (List.forall_mem_cons.mp rest).2⟩

/-- A way to a directory goes on from the directory. -/
theorem leads_append_iff {front back : List EntryName} {middle : Position} {all : List Path}
    (leads : tree.Leads position front followed middle) (isDirectory : middle.here.isDirectory) :
    tree.Leads position (front ++ back) all reached ↔
      ∃ more, all = followed ++ more ∧ tree.Leads middle back more reached := by
  induction leads generalizing all with
  | arrived => simp
  | stay still _ step =>
    rw [List.cons_append, leads_cons_iff, if_pos still]
    exact step isDirectory
  | up _ step =>
    rw [List.cons_append, leads_cons_iff, if_neg (by decide), if_pos rfl]
    exact step isDirectory
  | down enters listed _ step =>
    rw [List.cons_append, leads_enters_iff enters, listed]
    exact step isDirectory
  | link enters listed nonempty _ step =>
    rw [List.cons_append, leads_enters_iff enters, listed]
    simp only
    rw [← List.append_assoc]
    constructor
    · rintro ⟨_, _, rfl, onward⟩
      obtain ⟨more, rfl, later⟩ := (step isDirectory).mp onward
      exact ⟨more, rfl, later⟩
    · rintro ⟨more, rfl, later⟩
      exact ⟨nonempty, _, rfl, (step isDirectory).mpr ⟨more, rfl, later⟩⟩
  | leaf _ _ noDirectory _ =>
    obtain ⟨entries, same⟩ := Node.isDirectory_iff.mp isDirectory
    exact absurd same (noDirectory entries)

/-- An empty segment at the end can be left out. -/
theorem Leads.of_concat_nil {kept : List EntryName}
    (leads : tree.Leads position (kept ++ [[]]) followed reached) :
    tree.Leads position kept followed reached := by
  generalize same : kept ++ [[]] = segments at leads
  -- in the place of a link there are the segments of its path, and the empty one stays the last
  induction leads generalizing kept with
  | arrived => simp at same
  | stay still onward step =>
    rcases kept with - | ⟨first, kept⟩
    · obtain ⟨_, rfl⟩ := List.cons.inj same
      exact onward
    · obtain ⟨rfl, others⟩ := List.cons.inj same
      exact .stay still (step others)
  | up _ step =>
    rcases kept with - | ⟨first, kept⟩
    · cases (List.cons.inj same).1
    · obtain ⟨rfl, others⟩ := List.cons.inj same
      exact .up (step others)
  | down enters listed _ step =>
    rcases kept with - | ⟨first, kept⟩
    · exact absurd (.inl (List.cons.inj same).1.symm) enters.named
    · obtain ⟨rfl, others⟩ := List.cons.inj same
      exact .down enters listed (step others)
  | link enters listed nonempty _ step =>
    rcases kept with - | ⟨first, kept⟩
    · exact absurd (.inl (List.cons.inj same).1.symm) enters.named
    · rw [List.cons_append] at same
      obtain ⟨rfl, rfl⟩ := List.cons.inj same
      exact .link enters listed nonempty (step (List.append_assoc _ _ _))
  | leaf enters _ _ _ =>
    rcases kept with - | ⟨first, kept⟩
    · exact absurd (.inl (List.cons.inj same).1.symm) enters.named
    · simp at same

end Leads

section Limits

variable {tree : FileTree} {path : Path} {reached : Position}

/-- What a path denotes is what it leads to within the limits. -/
theorem locate?_eq_some_iff : tree.locate? true path = some reached ↔
    fits path ∧ ∃ followed, tree.LeadsTo path followed reached ∧ followed.length ≤ maxLinks ∧
      ∀ target ∈ followed, fits target := by
  unfold locate? LeadsTo
  split
  · next refused =>
    refine iff_of_false (by simp) ?_
    rintro ⟨short, _, ⟨nonempty, _⟩, _⟩
    exact refused.elim nonempty fun long => long short
  · next allowed =>
    obtain ⟨nonempty, short⟩ := not_or.mp allowed
    rw [follow_eq_some_iff]
    simp only [ne_eq, nonempty, not_false_eq_true, true_and, not_not.mp short]

/-- A path within the limits denotes what it leads to. -/
theorem locate?_iff (within : tree.WithinLimits path) :
    tree.locate? true path = some reached ↔ ∃ followed, tree.LeadsTo path followed reached := by
  rw [locate?_eq_some_iff]
  constructor
  · rintro ⟨_, followed, leads, _⟩
    exact ⟨followed, leads⟩
  · rintro ⟨followed, leads⟩
    exact ⟨within.fits, followed, leads, within.links _ _ leads, within.targets _ _ leads⟩

/-- A path that denotes something keeps within the limits. -/
theorem withinLimits_of_locate? (located : tree.locate? true path = some reached) :
    tree.WithinLimits path := by
  obtain ⟨short, followed, leads, few, targets⟩ := locate?_eq_some_iff.mp located
  refine ⟨short, fun other ending otherLeads => ?_, fun other ending otherLeads => ?_⟩
  · obtain ⟨rfl, _⟩ := leads.2.unique otherLeads.2
    exact few
  · obtain ⟨rfl, _⟩ := leads.2.unique otherLeads.2
    exact targets

/-- A short path that leads nowhere keeps within the limits. -/
theorem withinLimits_of_not_leadsTo (short : fits path)
    (nowhere : ∀ followed reached, ¬ tree.LeadsTo path followed reached) :
    tree.WithinLimits path :=
  ⟨short, fun _ _ leads => absurd leads (nowhere _ _), fun _ _ leads => absurd leads (nowhere _ _)⟩

/-- A path within the limits denotes a regular file when it leads to one. -/
theorem isRegular_iff (within : tree.WithinLimits path) :
    tree.isRegular path ↔ ∃ followed reached, tree.LeadsTo path followed reached ∧
      reached.here.isRegular := by
  unfold isRegular find? lookup?
  cases located : tree.locate? true path with
  | none =>
    refine iff_of_false (by simp) ?_
    rintro ⟨followed, reached, leads, _⟩
    cases located.symm.trans ((locate?_iff within).mpr ⟨followed, leads⟩)
  | some found =>
    obtain ⟨followed, leads⟩ := (locate?_iff within).mp located
    constructor
    · exact fun regular => ⟨followed, found, leads, regular⟩
    · rintro ⟨other, reached, otherLeads, regular⟩
      obtain ⟨_, rfl⟩ := leads.2.unique otherLeads.2
      exact regular

end Limits

/-- A path below a directory leads where the names on the way lead from the directory. -/
theorem leadsTo_below_iff {tree : FileTree} {directory : Path} {chain : List EntryName}
    {followed all : List Path} {middle reached : Position}
    (leads : tree.LeadsTo directory followed middle) (isDirectory : middle.here.isDirectory)
    (below : chain ≠ []) (proper : ∀ name ∈ chain, name.Proper) :
    tree.LeadsTo (directory.below chain) all reached ↔
      ∃ more, all = followed ++ more ∧ tree.Leads middle chain more reached := by
  obtain ⟨nonempty, leads⟩ := leads
  have stemLeads : tree.Leads (tree.start tree.workingPosition directory) directory.stem followed
      middle := by
    unfold Path.stem
    split
    · next closed =>
      rw [Path.segments_of_closed closed] at leads
      exact leads.of_concat_nil
    · exact leads
  have begins := Path.head?_below nonempty chain
  have sameStart : tree.start tree.workingPosition (directory.below chain) =
      tree.start tree.workingPosition directory := by
    unfold start
    simp only [Path.anchor_eq_root_iff, begins]
  have belowNonempty : directory.below chain ≠ [] := by
    intro empty
    rw [empty] at begins
    exact nonempty (List.head?_eq_none_iff.mp begins.symm)
  unfold LeadsTo
  rw [and_iff_right belowNonempty, sameStart, Path.segments_below directory below proper,
    leads_append_iff stemLeads isDirectory]

/-- A path below a directory, within the limits, denotes what the names on the way lead to from the
directory. -/
theorem locate?_below_iff {tree : FileTree} {directory : Path} {chain : List EntryName}
    {middle reached : Position} (located : tree.locate? true directory = some middle)
    (isDirectory : middle.here.isDirectory) (below : chain ≠ [])
    (proper : ∀ name ∈ chain, name.Proper) (within : tree.WithinLimits (directory.below chain)) :
    tree.locate? true (directory.below chain) = some reached ↔
      ∃ followed, tree.Leads middle chain followed reached := by
  obtain ⟨_, followed, leads, _⟩ := locate?_eq_some_iff.mp located
  rw [locate?_iff within]
  simp only [leadsTo_below_iff leads isDirectory below proper]
  constructor
  · rintro ⟨_, more, _, onward⟩
    exact ⟨more, onward⟩
  · rintro ⟨more, onward⟩
    exact ⟨_, more, rfl, onward⟩

end FileTree

end LineCensus
