import LineCensus.Path.Relative
import LineCensus.Proofs.Path.Below
import LineCensus.Proofs.Text.Decoding

/-!
# Names of directories in reports

The names on the way from the counted directory to a directory below it are joined with slashes,
and a backslash in one of them becomes a slash too (`relativeName`). However the counted directory
is spelled, a path below it is reported by this text, and so is the path that is left when the name
of a file is put at the end and dropped again (`Path.reportName_of_joined`).
-/
namespace LineCensus

/-- The name that a report has for the directory at the end of a chain of names: the names joined,
with slashes for backslashes, and a name of its own for the directory without a chain. -/
def relativeName (names : List Text) : Text :=
  if names = [] then topDirectory else Text.withSlashes (List.intercalate ['/'] names)

/-- No other text than a lone full stop becomes one when backslashes become slashes. -/
theorem Text.eq_stop_of_withSlashes {text : Text} (stop : text.withSlashes = ['.']) :
    text = ['.'] := by
  obtain ⟨char, rfl, same⟩ := List.map_eq_singleton_iff.mp stop
  split at same
  · cases same
  · rw [same]

namespace Path

/-- The bytes of texts, joined, are the bytes of the joined texts. -/
theorem join_map_utf8 (names : List Text) :
    join (names.map Text.utf8) = Text.utf8 (List.intercalate ['/'] names) := by
  induction names with
  | nil => rfl
  | cons first others step =>
    rcases eq_or_ne others [] with rfl | more
    · rw [List.map_singleton, join_singleton, List.intercalate_singleton]
    · rw [List.map_cons, join_cons (by simpa using more), step,
        List.intercalate_cons_of_ne_nil more]
      unfold Text.utf8
      rw [List.flatMap_append, List.flatMap_append, List.append_assoc]
      rfl

/-- A directory of which a chain of names is left under the counted one is reported by the text of
these names, joined. -/
theorem reportName_of_under? {directory root : Path} {chain : List EntryName} {text : Text}
    (proper : ∀ name ∈ chain, name.Proper) (joined : join chain = text.utf8)
    (left : directory.under? root = some (join chain)) :
    directory.reportName root = if chain = [] then topDirectory else text.withSlashes := by
  unfold reportName Path.text
  rw [left, Option.getD_some, joined, Utf8.decode_utf8]
  rcases chain with - | ⟨first, others⟩
  · have empty : text = [] := Utf8.utf8_injective joined.symm
    rw [empty]
    rfl
  · obtain ⟨nonempty, notSelf⟩ := isName_iff.mp (proper first List.mem_cons_self).named
    have shown : ¬ (text.withSlashes = [] ∨ text.withSlashes = ['.']) := by
      rintro (empty | stop)
      · rw [List.map_eq_nil_iff.mp empty] at joined
        exact join_cons_ne_nil nonempty others joined
      · -- Only a lone full stop among the names could be left as one.
        have single : join [[fullStop]] = Text.utf8 ['.'] := join_singleton _
        rw [Text.eq_stop_of_withSlashes stop, ← single] at joined
        have parts := eq_of_join_eq (fun part inside => (proper part inside).slashFree) (by decide)
          (List.cons_ne_nil _ _) (List.cons_ne_nil _ _) joined
        exact notSelf (List.cons.inj parts).1
    rw [if_neg shown, if_neg (List.cons_ne_nil first others)]

/-- A directory of which names are left under the counted one is reported by the names. -/
theorem reportName_eq_relativeName {directory root : Path} {names : List Text}
    (proper : ∀ name ∈ names, EntryName.Proper name.utf8)
    (left : directory.under? root = some (join (names.map Text.utf8))) :
    directory.reportName root = relativeName names := by
  rw [reportName_of_under? (List.forall_mem_map.mpr proper) (join_map_utf8 names) left]
  simp only [List.map_eq_nil_iff]
  rfl

/-- A path below the counted directory is reported by the names on the way, and so is the parent of
the path of a file in it. -/
theorem reportName_of_joined {root : Path} (nonempty : root ≠ []) {names : List Text}
    (proper : ∀ name ∈ names, EntryName.Proper name.utf8) {fileName : EntryName}
    (fileProper : fileName.Proper) :
    (root.below (names.map Text.utf8)).reportName root = relativeName names ∧
      ∃ parent, ((root.below (names.map Text.utf8)).entry fileName).parent? = some parent ∧
        parent.reportName root = relativeName names := by
  obtain ⟨_, spelling⟩ := exists_entrySpelling nonempty
  have chainProper : ∀ name ∈ names.map Text.utf8, EntryName.Proper name :=
    List.forall_mem_map.mpr proper
  have allProper : ∀ name ∈ names.map Text.utf8 ++ [fileName], EntryName.Proper name :=
    List.forall_mem_append.mpr ⟨chainProper, List.forall_mem_singleton.mpr fileProper⟩
  obtain ⟨parent, parented, left⟩ := spelling.parent?_under? allProper
  have filed : (root.below (names.map Text.utf8)).entry fileName =
      root.below (names.map Text.utf8 ++ [fileName]) := (List.foldl_concat ..).symm
  exact ⟨reportName_eq_relativeName proper (spelling.under?_below nonempty chainProper), parent,
    filed ▸ parented, reportName_eq_relativeName proper left⟩

/-- A spelling of a directory with a way up again and repeated slashes. -/
def roundabout : Path := Text.utf8 "./a/..//".toList

/-- Below that directory, names with a backslash are reported with slashes, and so is the parent of
a file whose name is no text. -/
theorem reportName_of_joined_roundabout :
    roundabout ≠ [] ∧
      (∀ name ∈ ["src\\util".toList, "io".toList], EntryName.Proper (Text.utf8 name)) ∧
      EntryName.Proper [0xFF] ∧
      (roundabout.below (["src\\util".toList, "io".toList].map Text.utf8)).reportName roundabout =
        "src/util/io".toList ∧
      ∃ parent, ((roundabout.below (["src\\util".toList, "io".toList].map Text.utf8)).entry
          [0xFF]).parent? = some parent ∧
        parent.reportName roundabout = "src/util/io".toList := by
  have nonempty : roundabout ≠ [] := by decide
  have proper : ∀ name ∈ ["src\\util".toList, "io".toList], EntryName.Proper (Text.utf8 name) :=
    List.forall_mem_cons.mpr ⟨⟨by decide, by decide⟩,
      List.forall_mem_singleton.mpr ⟨by decide, by decide⟩⟩
  have fileProper : EntryName.Proper [0xFF] := ⟨by decide, by decide⟩
  have reported := reportName_of_joined nonempty proper fileProper
  have shown : relativeName ["src\\util".toList, "io".toList] = "src/util/io".toList := by decide
  rw [shown] at reported
  exact ⟨nonempty, proper, fileProper, reported⟩

end Path

end LineCensus
