import LineCensus.Proofs.Path.Below

/-!
# The segments of paths below a directory

Whatever the path of a directory is, the segments of a path below it are those that stand before the
names of its entries (`Path.stem`) and then the names on the way (`Path.segments_below`). Both paths
begin alike (`Path.head?_below`), so they start from the same place.
-/
namespace LineCensus

namespace Path

variable {directory : Path} {name : EntryName} {chain : List EntryName}

/-- The segments of a directory that stand before the names of its entries. -/
def stem (directory : Path) : List EntryName :=
  if directory.getLast? = some slash then directory.segments.dropLast else directory.segments

/-- After a slash at the end there is an empty segment. -/
theorem segments_of_closed (closed : directory.getLast? = some slash) :
    directory.segments = directory.segments.dropLast ++ [[]] := by
  obtain ⟨kept, last, parts⟩ :=
    (List.eq_nil_or_concat directory.segments).resolve_left (segments_ne_nil directory)
  have empty : last = [] := by
    by_contra nonempty
    have inside : last ∈ directory.segments := by simp [parts]
    have isOpen := @getLast?_spell_ne .unspelled kept last (slash_not_mem_segments inside) nonempty
    rw [spell, ← List.concat_eq_append, ← parts, join_segments] at isOpen
    exact isOpen closed
  rw [parts, empty, List.concat_eq_append, List.dropLast_concat]

/-- The name of an entry is the last segment of its path. -/
theorem segments_entry (directory : Path) (slashFree : slash ∉ name) :
    (directory.entry name).segments = directory.stem ++ [name] := by
  have allFree : ∀ kept : List EntryName, (∀ segment ∈ kept, segment ∈ directory.segments) →
      ∀ segment ∈ kept ++ [name], slash ∉ segment := by
    intro kept among segment inside
    rcases List.mem_append.mp inside with old | new
    · exact slash_not_mem_segments (among segment old)
    · exact List.mem_singleton.mp new ▸ slashFree
  unfold entry stem
  split
  · next closed =>
    have joined : directory ++ name = join (directory.segments.dropLast ++ [name]) := by
      rw [join_concat_eq_append, ← segments_of_closed closed, join_segments]
    rw [joined]
    exact segments_join (allFree _ fun _ inside => List.dropLast_subset _ inside) (by simp)
  · have joined : directory ++ slash :: name = join (directory.segments ++ [name]) := by
      rw [join_concat (segments_ne_nil directory), join_segments]
    rw [joined]
    exact segments_join (allFree _ fun _ inside => inside) (by simp)

/-- All segments of the path of an entry stand before the names of what lies in the entry. -/
theorem stem_entry (directory : Path) (proper : name.Proper) :
    (directory.entry name).stem = directory.stem ++ [name] := by
  have nonempty := (isName_iff.mp proper.named).1
  have isOpen : (directory.entry name).getLast? ≠ some slash := by
    intro closed
    have final := List.getLast?_eq_some_getLast nonempty
    have last : (directory.entry name).getLast? = name.getLast? := by
      unfold entry
      split
      · rw [List.getLast?_append, final, Option.some_or]
      · rw [List.getLast?_append, List.getLast?_cons, final]
        rfl
    exact proper.slashFree (List.mem_of_getLast? (last.symm.trans closed))
  rw [stem, if_neg isOpen, segments_entry directory proper.slashFree]

/-- The names on the way are the last segments of a path below a directory. -/
theorem segments_below (directory : Path) (below : chain ≠ [])
    (proper : ∀ name ∈ chain, name.Proper) :
    (directory.below chain).segments = directory.stem ++ chain := by
  induction chain generalizing directory with
  | nil => exact absurd rfl below
  | cons name others step =>
    have nameProper := proper name List.mem_cons_self
    rcases eq_or_ne others [] with rfl | more
    · exact segments_entry directory nameProper.slashFree
    · have inner := step (directory.entry name) more fun other inside =>
        proper other (List.mem_cons_of_mem name inside)
      rw [stem_entry directory nameProper, List.append_assoc] at inner
      exact inner

/-- Different chains of names lead to different paths below a directory. -/
theorem eq_of_below_eq {other : List EntryName} (below : chain ≠ []) (otherBelow : other ≠ [])
    (proper : ∀ name ∈ chain, name.Proper) (otherProper : ∀ name ∈ other, name.Proper)
    (same : directory.below chain = directory.below other) : chain = other := by
  have joined : directory.stem ++ chain = directory.stem ++ other := by
    rw [← segments_below directory below proper, same,
      segments_below directory otherBelow otherProper]
  exact List.append_cancel_left joined

/-- A path below a directory begins like that of the directory. -/
theorem head?_below (nonempty : directory ≠ []) (chain : List EntryName) :
    (directory.below chain).head? = directory.head? := by
  obtain ⟨first, rest, rfl⟩ := List.exists_cons_of_ne_nil nonempty
  induction chain generalizing rest with
  | nil => rfl
  | cons name others step =>
    have begins : ∃ tail, Path.entry (first :: rest) name = first :: tail := by
      unfold entry
      split
      · exact ⟨_, rfl⟩
      · exact ⟨_, rfl⟩
    obtain ⟨tail, same⟩ := begins
    unfold below at step ⊢
    rw [List.foldl_cons, same]
    exact step tail (List.cons_ne_nil _ _)

/-- A path starts from the root when it begins with a slash. -/
theorem anchor_eq_root_iff {path : Path} : path.anchor = .root ↔ path.head? = some slash := by
  constructor
  · intro root
    obtain ⟨rest, rfl⟩ := slash_of_anchor root
    rfl
  · intro begins
    obtain ⟨rest, rfl⟩ := List.head?_eq_some_iff.mp begins
    rfl

end Path

end LineCensus
