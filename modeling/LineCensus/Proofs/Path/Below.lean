import LineCensus.Proofs.Path.Segments

/-!
# Paths below a directory

The path of an entry repeats the path of its directory as it was spelled, whatever slashes and full
stops that spelling has. So all paths below a directory share an anchor and the segments before the
first name (`EntrySpelling`), and what is left of such a path under the directory are the names
below it, joined (`EntrySpelling.parent?_under?`).
-/
namespace LineCensus

namespace Anchor

/-- The spelling of an anchor. -/
def spelling : Anchor → Path
  | .root => [slash]
  | .current => [fullStop]
  | .unspelled => []

/-- After an anchor there can be segments so that the anchor and they are read back. -/
structure Precedes (anchor : Anchor) (segments : List EntryName) : Prop where
  /-- The segments are parts between slashes. -/
  slashFree : ∀ segment ∈ segments, slash ∉ segment
  /-- A slash ends the full stop of the current directory. -/
  current : anchor = .current → ∀ first ∈ segments.head?, first = []
  /-- Only a name begins a path that has no anchor spelled. -/
  unspelled : anchor = .unspelled → ∀ first ∈ segments.head?, Path.isName first

variable {anchor : Anchor} {segments : List EntryName}

/-- Segments at the end can be left out. -/
theorem Precedes.shorter {kept : List EntryName} (precedes : anchor.Precedes segments)
    (front : kept <+: segments) : anchor.Precedes kept := by
  have first : ∀ segment ∈ kept.head?, segment ∈ segments.head? := by
    obtain ⟨rest, rfl⟩ := front
    intro segment inside
    rw [List.head?_append, Option.mem_def.mp inside]
    rfl
  exact ⟨fun segment inside => precedes.slashFree segment (front.subset inside),
    fun same segment inside => precedes.current same segment (first segment inside),
    fun same segment inside => precedes.unspelled same segment (first segment inside)⟩

/-- Segments can be added, unless the anchor would be read with the first of them. -/
theorem Precedes.append {more : List EntryName} (precedes : anchor.Precedes segments)
    (rooted : segments = [] → anchor = .root) (slashFree : ∀ segment ∈ more, slash ∉ segment) :
    anchor.Precedes (segments ++ more) := by
  have allFree : ∀ segment ∈ segments ++ more, slash ∉ segment := fun segment inside =>
    (List.mem_append.mp inside).elim (precedes.slashFree segment) (slashFree segment)
  rcases segments with - | ⟨first, others⟩
  · cases rooted rfl
    exact ⟨allFree, nofun, nofun⟩
  · exact ⟨allFree, precedes.current, precedes.unspelled⟩

end Anchor

namespace Path

/-- The path that an anchor and segments spell. -/
def spell (anchor : Anchor) (segments : List EntryName) : Path :=
  anchor.spelling ++ join segments

/-- A path from the root begins with a slash. -/
theorem slash_of_anchor {path : Path} (root : path.anchor = .root) :
    ∃ rest, path = slash :: rest := by
  unfold anchor at root
  split at root
  · cases root
  · next first rest =>
    split at root
    · next same => exact ⟨rest, same ▸ rfl⟩
    · split at root
      · cases root
      · cases root

/-- A path from the current directory, when it is spelled, begins with a lone full stop. -/
theorem fullStop_of_anchor {path : Path} (current : path.anchor = .current) :
    ∃ rest, path = fullStop :: rest ∧ (rest = [] ∨ rest.head? = some slash) := by
  unfold anchor at current
  split at current
  · cases current
  · next first rest =>
    split at current
    · cases current
    · split at current
      · next same => exact ⟨rest, same.1 ▸ rfl, same.2⟩
      · cases current

/-- A lone full stop at the front is an anchor. -/
theorem anchor_fullStop {rest : Path} (alone : rest = [] ∨ rest.head? = some slash) :
    anchor (fullStop :: rest) = .current := by
  rw [anchor, if_neg (by decide), if_pos ⟨rfl, alone⟩]

/-- A path that begins with a name has no anchor spelled. -/
theorem anchor_append {name : EntryName} (proper : name.Proper) (rest : Path) :
    anchor (name ++ rest) = .unspelled := by
  obtain ⟨nonempty, notSelf⟩ := isName_iff.mp proper.named
  rcases name with - | ⟨first, others⟩
  · exact absurd rfl nonempty
  · have notSlash : first ≠ slash := fun same => proper.slashFree (same ▸ List.mem_cons_self)
    rw [List.cons_append, anchor, if_neg notSlash, if_neg]
    rintro ⟨rfl, alone⟩
    -- After the full stop the name has another byte, which is no slash.
    rcases others with - | ⟨second, others⟩
    · exact notSelf rfl
    · rcases alone with empty | ended
      · exact List.cons_ne_nil _ _ empty
      · exact proper.slashFree (Option.some.inj ended ▸ by simp)

section Reading

variable {anchor : Anchor} {segments : List EntryName}

/-- The anchor is read back. -/
theorem anchor_spell (precedes : anchor.Precedes segments) :
    (spell anchor segments).anchor = anchor := by
  cases anchor with
  | root => rfl
  | current =>
    apply anchor_fullStop
    rcases segments with - | ⟨first, others⟩
    · exact .inl rfl
    · cases precedes.current rfl first rfl
      rcases eq_or_ne others [] with rfl | more
      · exact .inl (join_singleton [])
      · exact .inr (join_cons more [] ▸ rfl)
  | unspelled =>
    rcases segments with - | ⟨name, others⟩
    · rfl
    · have proper : name.Proper :=
        ⟨precedes.slashFree name List.mem_cons_self, precedes.unspelled rfl name rfl⟩
      rw [spell, Anchor.spelling, List.nil_append]
      rcases eq_or_ne others [] with rfl | more
      · rw [join_singleton, ← List.append_nil name]
        exact anchor_append proper []
      · rw [join_cons more]
        exact anchor_append proper _

/-- The spelling of the anchor is read back. -/
theorem anchorSpelling_spell (precedes : anchor.Precedes segments) :
    (spell anchor segments).anchorSpelling = anchor.spelling := by
  unfold anchorSpelling
  rw [anchor_spell precedes]
  cases anchor with
  | root => rfl
  | current => rfl
  | unspelled => rfl

/-- The segments are read back, joined. -/
theorem afterAnchor_spell (precedes : anchor.Precedes segments) :
    (spell anchor segments).afterAnchor = join segments := by
  unfold afterAnchor
  rw [anchor_spell precedes]
  cases anchor with
  | root => rfl
  | current => rfl
  | unspelled => rfl

/-- The parent of a path whose last segment is a name is spelled with the segments before it, up to
the last name among them. -/
theorem parent?_spell {name : EntryName} (proper : name.Proper)
    (precedes : anchor.Precedes (segments ++ [name])) :
    (spell anchor (segments ++ [name])).parent? = some (spell anchor (upToLastName segments)) := by
  have segmentsFree := (precedes.shorter (List.prefix_append segments _)).slashFree
  have nameProper := proper_reverse proper
  unfold parent?
  rw [afterAnchor_spell precedes, anchorSpelling_spell precedes, reverse_join_concat,
    dropEmpty_join_of_name nameProper]
  split
  · next empty => exact absurd empty (join_cons_ne_nil (isName_iff.mp nameProper.named).1 _)
  · rw [dropEmpty_dropWhile_join nameProper.slashFree, ← reverse_join, spell,
      ← dropEmptyEnd_join segmentsFree]
    rfl

end Reading

/-- What is left of a path under a base that has an anchor spelled or a name. -/
theorem under?_of_names {path base : Path} (placed : base.anchor = .unspelled → base.names ≠ [])
    (same : path.anchor = base.anchor) :
    path.under? base = (dropNames? path.body base.names).map dropEmptyEnd := by
  unfold under?
  split
  · next unspelled unnamed => exact absurd unnamed (placed unspelled)
  · exact if_pos same

/-- What is left of a path under a base that has the names of its first segments are the names
after these, joined. -/
theorem under?_spell {base : Path} {front chain : List EntryName}
    (placed : base.anchor = .unspelled → base.names ≠ [])
    (precedes : base.anchor.Precedes (front ++ chain))
    (sameNames : front.filter isName = base.names) (proper : ∀ name ∈ chain, name.Proper) :
    (spell base.anchor (front ++ chain)).under? base = some (join chain) := by
  have frontFree := (precedes.shorter (List.prefix_append front chain)).slashFree
  rw [under?_of_names placed (anchor_spell precedes), body, afterAnchor_spell precedes,
    ← sameNames, dropNames?_join frontFree, Option.map_some, dropEmptyEnd_dropEmpty_join proper]

/-- A path is spelled by its anchor and the segments after it. -/
theorem spell_segments (path : Path) : spell path.anchor path.afterAnchor.segments = path := by
  rw [spell, join_segments]
  unfold afterAnchor
  cases found : path.anchor with
  | root =>
    obtain ⟨rest, rfl⟩ := slash_of_anchor found
    rfl
  | current =>
    obtain ⟨rest, rfl, _⟩ := fullStop_of_anchor found
    rfl
  | unspelled => rfl

/-- A path of which the first segment is no name has an anchor spelled, or no bytes at all. -/
theorem anchor_join_of_not_name {first : EntryName} (unnamed : ¬ isName first)
    (others : List EntryName) (nonempty : join (first :: others) ≠ []) :
    anchor (join (first :: others)) ≠ .unspelled := by
  intro unspelled
  rcases not_isName_iff.mp unnamed with rfl | rfl
  · rcases eq_or_ne others [] with rfl | more
    · exact nonempty (join_singleton [])
    · rw [join_cons more] at unspelled
      cases unspelled
  · rcases eq_or_ne others [] with rfl | more
    · cases unspelled
    · rw [join_cons more] at unspelled
      cases unspelled

/-- The segments after the anchor of a path with at least one byte can stand there. -/
theorem precedes_segments {path : Path} (nonempty : path ≠ []) :
    path.anchor.Precedes path.afterAnchor.segments := by
  refine ⟨fun segment inside => slash_not_mem_segments inside, ?current, ?unspelled⟩
  case current =>
    intro current first inside
    obtain ⟨rest, rfl, alone⟩ := fullStop_of_anchor current
    unfold afterAnchor at inside
    rw [current] at inside
    rcases rest with - | ⟨byte, rest⟩
    · exact (Option.some.inj inside).symm
    · rcases alone with empty | ended
      · cases empty
      · cases ended
        exact (Option.some.inj inside).symm
  case unspelled =>
    intro unspelled first inside
    unfold afterAnchor at inside
    rw [unspelled] at inside
    by_contra unnamed
    have spelled := join_segments path
    rcases parts : path.segments with - | ⟨segment, others⟩
    · exact segments_ne_nil path parts
    · rw [parts] at inside spelled
      cases Option.some.inj inside
      rw [← spelled] at unspelled nonempty
      exact anchor_join_of_not_name unnamed others nonempty unspelled

/-- The path of an entry below a directory, by the chain of names from the directory on. -/
def below (directory : Path) (chain : List EntryName) : Path := chain.foldl entry directory

/-- How the paths of the entries of a directory are spelled: with the anchor of the directory, and
segments before the name of the entry. -/
structure EntrySpelling (directory : Path) (segments : List EntryName) : Prop where
  /-- The segments can stand after the anchor of the directory. -/
  precedes : directory.anchor.Precedes segments
  /-- Only the entries of the root have no segments before their names. -/
  rooted : segments = [] → directory.anchor = .root
  /-- The names among the segments are those of the directory. -/
  names_eq : directory.names = segments.filter isName
  /-- The name of the entry comes last. -/
  entry_eq : ∀ name, directory.entry name = spell directory.anchor (segments ++ [name])

/-- A name is put after a slash when there are segments that do not end with one. -/
theorem entry_spell {anchor : Anchor} {segments : List EntryName} (more : segments ≠ [])
    (openEnd : (spell anchor segments).getLast? ≠ some slash) (name : EntryName) :
    (spell anchor segments).entry name = spell anchor (segments ++ [name]) := by
  rw [entry, if_neg openEnd, spell, spell, join_concat more, List.append_assoc]

/-- A path whose last segment is not empty does not end with a slash. -/
theorem getLast?_spell_ne {anchor : Anchor} {segments : List EntryName} {last : EntryName}
    (slashFree : slash ∉ last) (nonempty : last ≠ []) :
    (spell anchor (segments ++ [last])).getLast? ≠ some slash := by
  rw [spell, join_concat_eq_append, List.getLast?_append, List.getLast?_append]
  intro same
  rcases found : last.getLast? with - | byte
  · exact nonempty (List.getLast?_eq_none_iff.mp found)
  · rw [found] at same
    cases same
    exact slashFree (List.mem_of_getLast? found)

/-- Where the path of a directory does not end with a slash, all its segments stand before the names
of the entries. -/
theorem entrySpelling_of_open {directory : Path} (nonempty : directory ≠ [])
    (isOpen : directory.getLast? ≠ some slash) :
    EntrySpelling directory directory.afterAnchor.segments where
  precedes := precedes_segments nonempty
  rooted empty := absurd empty (segments_ne_nil _)
  names_eq := rfl
  entry_eq name := by
    have spelled := spell_segments directory
    have placed := entry_spell (segments_ne_nil _) (spelled.symm ▸ isOpen) name
    rwa [spelled] at placed

/-- Where it ends with a slash, there is an empty segment after the slash, in whose place the names
of the entries stand. -/
theorem entrySpelling_of_closed {directory : Path} (nonempty : directory ≠ [])
    (closed : directory.getLast? = some slash) : ∃ kept, EntrySpelling directory kept := by
  have spelled := spell_segments directory
  have precedes := precedes_segments nonempty
  obtain ⟨kept, last, parts⟩ := (List.eq_nil_or_concat _).resolve_left
    (segments_ne_nil directory.afterAnchor)
  rw [List.concat_eq_append] at parts
  rw [parts] at spelled precedes
  have empty : last = [] := by
    by_contra nonempty
    exact getLast?_spell_ne (precedes.slashFree last (by simp)) nonempty (spelled ▸ closed)
  subst empty
  refine ⟨kept, precedes.shorter (List.prefix_append kept _), ?rooted, ?names, ?entry⟩
  case rooted =>
    rintro rfl
    rw [← spelled] at closed
    cases found : directory.anchor with
    | root => rfl
    | current =>
      rw [found] at closed
      exact absurd closed (by decide)
    | unspelled =>
      rw [found] at closed
      exact absurd closed (by decide)
  case names =>
    unfold names
    rw [parts, List.filter_append]
    exact List.append_nil _
  case entry =>
    intro name
    rw [entry, if_pos closed]
    calc
      directory ++ name = spell directory.anchor (kept ++ [[]]) ++ name := by rw [spelled]
      _ = spell directory.anchor (kept ++ [name]) := by
        rw [spell, spell, join_concat_eq_append kept name, List.append_assoc]

/-- The paths of the entries of every directory that has a path are spelled so. -/
theorem exists_entrySpelling {directory : Path} (nonempty : directory ≠ []) :
    ∃ segments, EntrySpelling directory segments := by
  by_cases closed : directory.getLast? = some slash
  · exact entrySpelling_of_closed nonempty closed
  · exact ⟨_, entrySpelling_of_open nonempty closed⟩

namespace EntrySpelling

variable {directory : Path} {segments chain : List EntryName}

/-- Names can be added to the segments of a directory. -/
theorem precedes_append (spelling : EntrySpelling directory segments)
    (proper : ∀ name ∈ chain, name.Proper) : directory.anchor.Precedes (segments ++ chain) :=
  spelling.precedes.append spelling.rooted fun name inside => (proper name inside).slashFree

/-- A path below a directory is spelled with the names on the way to it. -/
theorem below_eq (spelling : EntrySpelling directory segments)
    (proper : ∀ name ∈ chain, name.Proper) (name : EntryName) :
    directory.below (chain ++ [name]) = spell directory.anchor (segments ++ chain ++ [name]) := by
  induction chain using List.reverseRecOn generalizing name with
  | nil =>
    rw [List.append_nil, List.nil_append, ← spelling.entry_eq]
    rfl
  | append_singleton chain last step =>
    have lastProper := proper last (by simp)
    have reached := step (fun name inside => proper name (by simp [inside])) last
    have openEnd : (spell directory.anchor (segments ++ chain ++ [last])).getLast? ≠ some slash :=
      getLast?_spell_ne lastProper.slashFree (isName_iff.mp lastProper.named).1
    calc
      directory.below (chain ++ [last] ++ [name]) =
          (directory.below (chain ++ [last])).entry name := List.foldl_concat ..
      _ = spell directory.anchor (segments ++ (chain ++ [last]) ++ [name]) := by
        rw [reached, entry_spell (by simp) openEnd, List.append_assoc segments chain]

/-- A directory that has no anchor spelled has a name. -/
theorem names_ne_nil (spelling : EntrySpelling directory segments)
    (unspelled : directory.anchor = .unspelled) : directory.names ≠ [] := by
  rw [spelling.names_eq]
  rcases segments with - | ⟨first, others⟩
  · cases unspelled.symm.trans (spelling.rooted rfl)
  · rw [List.filter_cons_of_pos (spelling.precedes.unspelled unspelled first rfl)]
    exact List.cons_ne_nil _ _

/-- What is left of the directory of a path below a directory are the names on the way, joined. -/
theorem parent?_under? (spelling : EntrySpelling directory segments) {name : EntryName}
    (proper : ∀ other ∈ chain ++ [name], other.Proper) :
    ∃ parent, (directory.below (chain ++ [name])).parent? = some parent ∧
      parent.under? directory = some (join chain) := by
  have chainProper : ∀ other ∈ chain, other.Proper :=
    fun other inside => proper other (by simp [inside])
  have precedes := spelling.precedes_append proper
  rw [← List.append_assoc] at precedes
  have kept : upToLastName (segments ++ chain) <+: segments ++ chain := List.rdropWhile_prefix _ _
  have keptPrecedes := (spelling.precedes_append chainProper).shorter kept
  refine ⟨spell directory.anchor (upToLastName (segments ++ chain)), ?_, ?_⟩
  · rw [spelling.below_eq chainProper, parent?_spell (proper name (by simp)) precedes]
  · obtain ⟨front, isFront, sameNames, split⟩ := upToLastName_append segments chainProper
    rw [split] at keptPrecedes ⊢
    exact under?_spell spelling.names_ne_nil keptPrecedes (sameNames.trans spelling.names_eq.symm)
      chainProper

/-- What is left of a path below a directory are the names on the way, joined. -/
theorem under?_below (spelling : EntrySpelling directory segments) (nonempty : directory ≠ [])
    (proper : ∀ name ∈ chain, name.Proper) :
    (directory.below chain).under? directory = some (join chain) := by
  rcases chain.eq_nil_or_concat with rfl | ⟨front, last, rfl⟩
  · -- The directory itself has all its segments in front of no names.
    have precedes : directory.anchor.Precedes (directory.afterAnchor.segments ++ []) :=
      (List.append_nil _).symm ▸ precedes_segments nonempty
    have whole := under?_spell spelling.names_ne_nil precedes rfl nofun
    rwa [List.append_nil, spell_segments] at whole
  · rw [List.concat_eq_append] at proper ⊢
    rw [spelling.below_eq fun name inside => proper name (List.mem_append_left _ inside),
      List.append_assoc]
    exact under?_spell spelling.names_ne_nil (spelling.precedes_append proper)
      spelling.names_eq.symm proper

/-- A path below a directory lies in one chain of names only. -/
theorem below_inj (spelling : EntrySpelling directory segments) {other : List EntryName}
    {name last : EntryName} (proper : ∀ part ∈ chain ++ [name], part.Proper)
    (otherProper : ∀ part ∈ other ++ [last], part.Proper)
    (same : directory.below (chain ++ [name]) = directory.below (other ++ [last])) :
    chain = other := by
  have allFree : ∀ {names : List EntryName}, (∀ part ∈ names, part.Proper) →
      ∀ segment ∈ segments ++ names, slash ∉ segment :=
    fun namesProper => (spelling.precedes_append namesProper).slashFree
  rw [spelling.below_eq fun part inside => proper part (by simp [inside]),
    spelling.below_eq fun part inside => otherProper part (by simp [inside]),
    List.append_assoc, List.append_assoc] at same
  have joined := List.append_cancel_left same
  have parts := List.append_cancel_left (eq_of_join_eq (allFree proper) (allFree otherProper)
    (by simp) (by simp) joined)
  exact (List.append_inj' parts rfl).1

end EntrySpelling

end Path

end LineCensus
