import Mathlib.Data.List.DropRight
import LineCensus.Path.Basic

/-!
# Paths as segments

The segments of a path are the parts between its slashes, and joining them with slashes gives the
path back. What the operations on spelled paths do to the bytes is dropping segments, at the front
or at the end: those that are no names (`dropEmpty_join_of_name`, `dropEmpty_join_of_not_name`,
`dropEmptyEnd_join`), and those that are the names of another path (`dropNames?_join`).
-/
namespace LineCensus

/-- A segment is a name, and not empty or a lone full stop. -/
def Path.isName (segment : EntryName) : Bool := segment ≠ [] && segment ≠ [fullStop]

/-- A name that an entry can have: there is no slash in it, and it is not empty or a lone full
stop. -/
structure EntryName.Proper (name : EntryName) : Prop where
  /-- The name is one segment of a path. -/
  slashFree : slash ∉ name
  /-- The segment is a name. -/
  named : Path.isName name

namespace Path

/-- Segments with a slash between each two. -/
def join (segments : List EntryName) : Path := [slash].intercalate segments

@[simp] theorem join_singleton (segment : EntryName) : join [segment] = segment :=
  List.intercalate_singleton

/-- The first of several segments ends at a slash. -/
theorem join_cons {segments : List EntryName} (more : segments ≠ []) (first : EntryName) :
    join (first :: segments) = first ++ slash :: join segments := by
  unfold join
  rw [List.intercalate_cons_of_ne_nil more, List.append_assoc, List.singleton_append]

/-- The last of several segments begins after a slash. -/
theorem join_concat {segments : List EntryName} (more : segments ≠ []) (last : EntryName) :
    join (segments ++ [last]) = join segments ++ slash :: last := by
  induction segments with
  | nil => exact absurd rfl more
  | cons first segments step =>
    rcases eq_or_ne segments [] with rfl | others
    · rw [List.singleton_append, join_cons (List.cons_ne_nil last []), join_singleton,
        join_singleton]
    · rw [List.cons_append, join_cons (by simp), step others, join_cons others,
        List.append_assoc, List.cons_append]

/-- A first segment with a byte is the front of a path with a byte. -/
theorem join_cons_ne_nil {first : EntryName} (nonempty : first ≠ [])
    (segments : List EntryName) : join (first :: segments) ≠ [] := by
  rcases eq_or_ne segments [] with rfl | more
  · rwa [join_singleton]
  · rw [join_cons more]
    exact List.append_ne_nil_of_left_ne_nil nonempty _

/-- The last segment is the end of the path. -/
theorem join_concat_eq_append (segments : List EntryName) (last : EntryName) :
    join (segments ++ [last]) = join (segments ++ [[]]) ++ last := by
  rcases eq_or_ne segments [] with rfl | more
  · simp
  · rw [join_concat more, join_concat more, List.append_assoc, List.singleton_append]

/-- A path read from its end has its segments read from their ends. -/
theorem reverse_join (segments : List EntryName) :
    (join segments).reverse = join (segments.reverse.map List.reverse) := by
  induction segments with
  | nil => rfl
  | cons first segments step =>
    rcases eq_or_ne segments [] with rfl | more
    · simp
    · rw [join_cons more, List.reverse_append, List.reverse_cons, List.append_assoc,
        List.singleton_append, step, List.reverse_cons, List.map_append, List.map_singleton,
        join_concat (by simpa using more)]

/-- Read from its end, a path begins with its last segment. -/
theorem reverse_join_concat (segments : List EntryName) (last : EntryName) :
    (join (segments ++ [last])).reverse =
      join (last.reverse :: segments.reverse.map List.reverse) := by
  rw [reverse_join, List.reverse_concat, List.map_cons]

/-- The segments of a path are its parts between slashes. -/
theorem segments_eq_splitOn (path : Path) : path.segments = path.splitOn slash := by
  induction path with
  | nil => rfl
  | cons byte path step =>
    rw [List.splitOn_cons_eq_if_modifyHead, ← step]
    unfold segments
    rw [List.foldr_cons]
    simp only [beq_iff_eq]
    split
    · rfl
    · split
      · next empty =>
        have nonempty : segments path ≠ [] := step ▸ List.splitOn_ne_nil slash path
        exact absurd empty nonempty
      · next found =>
        rw [found]
        rfl

/-- A path has at least one segment. -/
theorem segments_ne_nil (path : Path) : path.segments ≠ [] :=
  segments_eq_splitOn path ▸ List.splitOn_ne_nil slash path

/-- A path is its segments joined. -/
@[simp] theorem join_segments (path : Path) : join path.segments = path :=
  segments_eq_splitOn path ▸ List.intercalate_splitOn slash

/-- Joined segments are read back, as none of them has a slash. -/
theorem segments_join {segments : List EntryName} (slashFree : ∀ part ∈ segments, slash ∉ part)
    (nonempty : segments ≠ []) : (join segments).segments = segments := by
  rw [segments_eq_splitOn]
  exact List.splitOn_intercalate slash slashFree nonempty

/-- No segment of a path has a slash. -/
theorem slash_not_mem_segments {path : Path} {segment : EntryName}
    (inside : segment ∈ path.segments) : slash ∉ segment := by
  induction path generalizing segment with
  | nil =>
    cases List.mem_singleton.mp inside
    exact List.not_mem_nil
  | cons byte path step =>
    rw [segments_eq_splitOn, List.splitOn_cons_eq_if_modifyHead, ← segments_eq_splitOn] at inside
    simp only [beq_iff_eq] at inside
    split at inside
    · rcases List.mem_cons.mp inside with rfl | later
      · exact List.not_mem_nil
      · exact step later
    · next other =>
      rcases parts : segments path with - | ⟨first, others⟩
      · exact absurd parts (segments_ne_nil path)
      · rw [parts, List.modifyHead_cons] at inside
        rcases List.mem_cons.mp inside with rfl | later
        · rw [List.mem_cons, not_or]
          exact ⟨Ne.symm other, step (parts ▸ List.mem_cons_self)⟩
        · exact step (parts ▸ List.mem_cons_of_mem first later)

/-- Lists of segments without slashes are the same when the paths are. The empty path has one
empty segment, which is why no list may be empty. -/
theorem eq_of_join_eq {left right : List EntryName} (leftFree : ∀ part ∈ left, slash ∉ part)
    (rightFree : ∀ part ∈ right, slash ∉ part) (some_left : left ≠ []) (some_right : right ≠ [])
    (same : join left = join right) : left = right := by
  rw [← segments_join leftFree some_left, same, segments_join rightFree some_right]

/-- A name is no name of the directory itself: it has a byte, and is not a lone full stop. -/
theorem isName_iff {segment : EntryName} :
    isName segment = true ↔ segment ≠ [] ∧ segment ≠ [fullStop] := by
  unfold isName
  simp

/-- Of the segments that are no names there are two. -/
theorem not_isName_iff {segment : EntryName} :
    ¬ isName segment ↔ segment = [] ∨ segment = [fullStop] := by
  rw [isName_iff, not_and_or, not_not, not_not]

/-- A name is one from both ends. -/
@[simp] theorem isName_reverse (segment : EntryName) : isName segment.reverse = isName segment := by
  rw [Bool.eq_iff_iff, isName_iff, isName_iff, Ne, Ne, List.reverse_eq_nil_iff,
    List.reverse_eq_iff]
  rfl

/-- A name that an entry can have is one from both ends. -/
theorem proper_reverse {name : EntryName} (proper : name.Proper) :
    EntryName.Proper name.reverse :=
  ⟨by simpa using proper.slashFree, by simpa using proper.named⟩

/-- Nothing is dropped in front of a name. -/
theorem dropEmpty_append {name : EntryName} (proper : name.Proper) (rest : Path) :
    dropEmpty (name ++ rest) = name ++ rest := by
  obtain ⟨nonempty, notSelf⟩ := isName_iff.mp proper.named
  rcases name with - | ⟨first, others⟩
  · exact absurd rfl nonempty
  · have notSlash : first ≠ slash := fun same => proper.slashFree (same ▸ List.mem_cons_self)
    rw [List.cons_append, dropEmpty.eq_def]
    simp only [if_neg notSlash]
    split
    · next stop =>
      -- A full stop that begins a longer name is kept.
      rcases others with - | ⟨second, others⟩
      · exact absurd (stop ▸ rfl) notSelf
      · have notSlash : second ≠ slash := fun same => proper.slashFree (same ▸ by simp)
        simp only [List.cons_append, if_neg notSlash]
    · rfl

/-- Nothing is dropped when the first segment is a name. -/
theorem dropEmpty_join_of_name {name : EntryName} (proper : name.Proper)
    (segments : List EntryName) :
    dropEmpty (join (name :: segments)) = join (name :: segments) := by
  rcases eq_or_ne segments [] with rfl | more
  · simpa using dropEmpty_append proper []
  · rw [join_cons more]
    exact dropEmpty_append proper _

/-- A slash at the front is dropped. -/
theorem dropEmpty_slash (rest : Path) : dropEmpty (slash :: rest) = dropEmpty rest := by
  rw [dropEmpty.eq_def]
  exact if_pos rfl

/-- A first segment that is no name is dropped. -/
theorem dropEmpty_join_of_not_name {segment : EntryName} (unnamed : ¬ isName segment)
    (segments : List EntryName) :
    dropEmpty (join (segment :: segments)) = dropEmpty (join segments) := by
  rcases eq_or_ne segments [] with rfl | more
  · rcases not_isName_iff.mp unnamed with rfl | rfl
    · rfl
    · rfl
  · rw [join_cons more]
    rcases not_isName_iff.mp unnamed with rfl | rfl
    · exact dropEmpty_slash _
    · rfl

/-- Segments up to the last name. -/
def upToLastName (segments : List EntryName) : List EntryName :=
  segments.rdropWhile fun segment => !isName segment

/-- Segments at the end that are no names are dropped. -/
theorem dropEmptyEnd_join {segments : List EntryName}
    (slashFree : ∀ segment ∈ segments, slash ∉ segment) :
    dropEmptyEnd (join segments) = join (upToLastName segments) := by
  unfold upToLastName
  induction segments using List.reverseRecOn with
  | nil => rfl
  | append_singleton segments last step =>
    have others : ∀ segment ∈ segments, slash ∉ segment :=
      fun segment inside => slashFree segment (by simp [inside])
    rw [List.rdropWhile_concat]
    unfold dropEmptyEnd at step ⊢
    rw [reverse_join_concat]
    split
    · next unnamed =>
      rw [dropEmpty_join_of_not_name (by simpa using unnamed), ← reverse_join, step others]
    · next named =>
      have proper : last.Proper := ⟨slashFree last (by simp), by simpa using named⟩
      rw [dropEmpty_join_of_name (proper_reverse proper), ← reverse_join_concat,
        List.reverse_reverse]

/-- The segments up to the last name have all the names. -/
theorem filter_isName_upToLastName (segments : List EntryName) :
    (upToLastName segments).filter isName = segments.filter isName := by
  unfold upToLastName
  induction segments using List.reverseRecOn with
  | nil => rfl
  | append_singleton segments last step =>
    rw [List.rdropWhile_concat]
    split
    · next unnamed =>
      rw [step, List.filter_append, List.filter_cons_of_neg (by simpa using unnamed)]
      exact (List.append_nil _).symm
    · rfl

/-- Names at the end are kept, with segments before them that have the same names as all. -/
theorem upToLastName_append (segments : List EntryName) {chain : List EntryName}
    (proper : ∀ name ∈ chain, name.Proper) :
    ∃ front, front <+: segments ∧ front.filter isName = segments.filter isName ∧
      upToLastName (segments ++ chain) = front ++ chain := by
  rcases chain.eq_nil_or_concat with rfl | ⟨others, last, rfl⟩
  · have front : upToLastName segments <+: segments := List.rdropWhile_prefix _ _
    refine ⟨upToLastName segments, front, filter_isName_upToLastName segments, ?_⟩
    rw [List.append_nil, List.append_nil]
  · have named := (proper last (by simp)).named
    refine ⟨segments, List.prefix_rfl, rfl, ?_⟩
    rw [List.concat_eq_append, ← List.append_assoc]
    exact List.rdropWhile_concat_neg _ _ _ (by simpa using named)

/-- Nothing is dropped around names. -/
theorem dropEmptyEnd_dropEmpty_join {chain : List EntryName}
    (proper : ∀ name ∈ chain, name.Proper) :
    dropEmptyEnd (dropEmpty (join chain)) = join chain := by
  have front : dropEmpty (join chain) = join chain := by
    rcases chain with - | ⟨first, others⟩
    · rfl
    · exact dropEmpty_join_of_name (proper first List.mem_cons_self) others
  have ending : upToLastName chain = chain := by
    refine List.rdropWhile_eq_self_iff.mpr fun more => ?_
    simpa using (proper _ (List.getLast_mem more)).named
  rw [front, dropEmptyEnd_join fun name inside => (proper name inside).slashFree, ending]

/-- Each byte of a segment is another than a slash. -/
theorem decide_ne_slash {segment : EntryName} (slashFree : slash ∉ segment) :
    ∀ byte ∈ segment, decide (byte ≠ slash) = true :=
  fun _ inside => decide_eq_true fun same => slashFree (same ▸ inside)

/-- The first segment ends at the first slash. -/
theorem takeWhile_join {first : EntryName} (slashFree : slash ∉ first)
    (segments : List EntryName) :
    (join (first :: segments)).takeWhile (· ≠ slash) = first := by
  have all := decide_ne_slash slashFree
  rcases eq_or_ne segments [] with rfl | more
  · rw [join_singleton, List.takeWhile_eq_self_iff.mpr all]
  · rw [join_cons more, List.takeWhile_append_of_pos all]
    simp

/-- After the first segment and its slash there are the others. -/
theorem dropEmpty_dropWhile_join {first : EntryName} (slashFree : slash ∉ first)
    (segments : List EntryName) :
    dropEmpty ((join (first :: segments)).dropWhile (· ≠ slash)) = dropEmpty (join segments) := by
  have all := decide_ne_slash slashFree
  rcases eq_or_ne segments [] with rfl | more
  · rw [join_singleton, List.dropWhile_eq_nil_iff.mpr all]
    rfl
  · rw [join_cons more, List.dropWhile_append_of_pos all, List.dropWhile_cons_of_neg (by simp)]
    exact dropEmpty_slash _

/-- The names of segments are dropped with these segments, when they are at the front. -/
theorem dropNames?_join {front : List EntryName} (slashFree : ∀ segment ∈ front, slash ∉ segment)
    (back : List EntryName) :
    dropNames? (dropEmpty (join (front ++ back))) (front.filter isName) =
      some (dropEmpty (join back)) := by
  induction front with
  | nil => rfl
  | cons first front step =>
    have others := step fun segment inside => slashFree segment (List.mem_cons_of_mem first inside)
    have firstFree : slash ∉ first := slashFree first List.mem_cons_self
    by_cases named : isName first
    · have nonempty := join_cons_ne_nil (isName_iff.mp named).1 (front ++ back)
      rw [List.cons_append, dropEmpty_join_of_name ⟨firstFree, named⟩,
        List.filter_cons_of_pos named, dropNames?, if_pos ⟨nonempty, takeWhile_join firstFree _⟩,
        dropEmpty_dropWhile_join firstFree, others]
    · rw [List.cons_append, dropEmpty_join_of_not_name named, List.filter_cons_of_neg named, others]

end Path

end LineCensus
