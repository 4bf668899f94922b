import Mathlib.Data.List.Forall2
import LineCensus.Proofs.Decimal.Natural
import LineCensus.Report.Format

/-!
# Colour changes nothing else

A terminal takes an escape, a bracket and everything up to the next `m` as one control sequence. A
report with colour is the report without it, but for such sequences: without them each of its lines
is the uncoloured one, with the blanks that fill up its columns (`Report.onlyColoured`).

A painted part decorates a plain one when leaving its sequences out gives the plain part, whatever
follows (`Decorates`). Parts without an escape decorate themselves, painting decorates, and texts
put together from such parts decorate each other, so that only the characters of the report have to
be looked at. Of these only the names can be an escape.
-/
namespace LineCensus

namespace Text

/-- The character that control sequences begin with. -/
def escape : Char := '\u001B'

/-- The text after a control sequence, when a text starts with a whole one. -/
def afterSequence? : Text → Option Text
  | first :: second :: rest =>
    if first = escape ∧ second = '[' then
      match rest.dropWhile (· ≠ 'm') with
      | [] => none
      | _ :: after => some after
    else none
  | _ => none

/-- What is after a control sequence is shorter. -/
theorem length_of_afterSequence? {text after : Text} (found : text.afterSequence? = some after) :
    after.length < text.length := by
  unfold afterSequence? at found
  split at found
  · next first second rest =>
    split at found
    · split at found
      · cases found
      · next ending dropped =>
        cases found
        have shorter := (List.dropWhile_suffix (l := rest) (· ≠ 'm')).length_le
        rw [dropped] at shorter
        simp only [List.length_cons] at shorter ⊢
        omega
    · cases found
  · cases found

/-- A text without its control sequences. -/
def withoutSequences : Text → Text
  | [] => []
  | char :: rest =>
    match _found : afterSequence? (char :: rest) with
    | some after => withoutSequences after
    | none => char :: withoutSequences rest
termination_by text => text.length
decreasing_by
  · exact length_of_afterSequence? ‹_›
  · exact Nat.lt_succ_self _

/-- A character that is no escape is kept. -/
theorem withoutSequences_cons {char : Char} (plain : char ≠ escape) (rest : Text) :
    withoutSequences (char :: rest) = char :: withoutSequences rest := by
  have none_here : afterSequence? (char :: rest) = none := by
    unfold afterSequence?
    split
    · next same =>
      cases same
      exact if_neg fun both => plain both.1
    · rfl
  rw [withoutSequences]
  split
  · next found => cases none_here.symm.trans found
  · rfl

/-- A control sequence is left out. -/
theorem withoutSequences_sequence {code : Text} (single : 'm' ∉ code) (rest : Text) :
    withoutSequences (escape :: '[' :: code ++ 'm' :: rest) = withoutSequences rest := by
  have passed : ∀ char ∈ code, decide (char ≠ 'm') = true :=
    fun char inside => decide_eq_true fun same => single (same ▸ inside)
  have here : afterSequence? (escape :: '[' :: code ++ 'm' :: rest) = some rest := by
    rw [List.cons_append, List.cons_append, afterSequence?, if_pos ⟨rfl, rfl⟩,
      List.dropWhile_append_of_pos passed]
    rfl
  rw [List.cons_append, List.cons_append] at here ⊢
  rw [withoutSequences]
  split
  · next found => rw [Option.some.inj (found.symm.trans here)]
  · next missing => cases here.symm.trans missing

end Text

/-- A text is another one with control sequences added to it, and the other has no escape. -/
structure Decorates (painted plain : Text) : Prop where
  /-- There is no escape in the plain text. -/
  unescaped : Text.escape ∉ plain
  /-- Without the sequences there is the plain text, whatever follows. -/
  stripped : ∀ rest, Text.withoutSequences (painted ++ rest) = plain ++ rest.withoutSequences

namespace Decorates

variable {painted plain : Text}

/-- A text without an escape decorates itself. -/
theorem of_unescaped (unescaped : Text.escape ∉ plain) : Decorates plain plain where
  unescaped := unescaped
  stripped rest := by
    induction plain with
    | nil => rfl
    | cons char plain step =>
      obtain ⟨first, others⟩ := List.ne_and_not_mem_of_not_mem_cons unescaped
      rw [List.cons_append, Text.withoutSequences_cons first.symm, step others, List.cons_append]

/-- Texts put together decorate each other part by part. -/
theorem append {other otherPlain : Text} (front : Decorates painted plain)
    (back : Decorates other otherPlain) : Decorates (painted ++ other) (plain ++ otherPlain) where
  unescaped := by
    rw [List.mem_append, not_or]
    exact ⟨front.unescaped, back.unescaped⟩
  stripped rest := by
    rw [List.append_assoc, front.stripped, back.stripped, List.append_assoc]

/-- The sequence that sets a rendition decorates nothing. -/
theorem sequence {code : String} (single : 'm' ∉ code.toList) :
    Decorates (Paint.sequence code) [] where
  unescaped := List.not_mem_nil
  stripped rest := by
    have placed : Paint.sequence code ++ rest =
        Text.escape :: '[' :: code.toList ++ 'm' :: rest := by
      simp [Paint.sequence, Text.escape]
    rw [placed, Text.withoutSequences_sequence single, List.nil_append]

/-- The painted part decorates the part. -/
theorem apply (paint : Paint) (unescaped : Text.escape ∉ plain) :
    Decorates (paint.apply true plain) (paint.apply false plain) := by
  have opening : Decorates paint.opening [] := by
    cases paint with
    | bold => exact sequence (by decide)
    | green => exact sequence (by decide)
    | yellow => exact sequence (by decide)
    | cyan => exact sequence (by decide)
  have closing : Decorates Paint.closing [] := sequence (by decide)
  have whole := (opening.append (of_unescaped unescaped)).append closing
  rwa [List.nil_append, List.append_nil] at whole

/-- Lines that are ended decorate each other line by line. -/
theorem ended {lines plainLines : List Text} (each : List.Forall₂ Decorates lines plainLines) :
    Decorates (lines.flatMap fun line => line ++ ['\n'])
      (plainLines.flatMap fun line => line ++ ['\n']) := by
  induction each with
  | nil => exact of_unescaped List.not_mem_nil
  | cons first _ step =>
    rw [List.flatMap_cons, List.flatMap_cons]
    exact (first.append (of_unescaped (by decide))).append step

end Decorates

section Unescaped

/-- A digit is no escape. -/
theorem escape_not_mem_decimalText (number : Nat) : Text.escape ∉ decimalText number :=
  fun inside => absurd (isDigit_of_mem_decimalText inside) (by decide)

/-- Neither digits nor the commas between their groups are an escape. -/
theorem escape_not_mem_groupThousands (number : Nat) : Text.escape ∉ groupThousands number := by
  intro inside
  rcases mem_groupThousands inside with comma | digit
  · exact absurd comma (by decide)
  · exact absurd digit (by decide)

/-- A double with two places is written without an escape. -/
theorem Double.escape_not_mem_twoPlaces (value : Double) : Text.escape ∉ value.twoPlaces := by
  have signed : ∀ negative, Text.escape ∉ signText negative := by decide
  cases value with
  | nan => exact show Text.escape ∉ "NaN".toList by decide
  | infinite negative =>
    exact List.not_mem_append (signed negative) (show Text.escape ∉ "inf".toList by decide)
  | finite negative magnitude =>
    have point : Text.escape ≠ '.' := by decide
    refine List.not_mem_append (signed negative) (List.not_mem_append (List.not_mem_append
      (escape_not_mem_decimalText _) ?_) (escape_not_mem_decimalText _))
    exact List.not_mem_cons_of_ne_of_not_mem point (escape_not_mem_decimalText _)

variable {text : Text} (unescaped : Text.escape ∉ text) (width : Nat)

include unescaped

/-- Blanks after a text are no escape. -/
theorem Text.escape_not_mem_padRight : Text.escape ∉ text.padRight width :=
  List.not_mem_append unescaped fun inside =>
    absurd (List.eq_of_mem_replicate inside) (by decide)

/-- Blanks before a text are no escape. -/
theorem Text.escape_not_mem_padLeft : Text.escape ∉ text.padLeft width :=
  List.not_mem_append (fun inside => absurd (List.eq_of_mem_replicate inside) (by decide))
    unescaped

end Unescaped

/-- The names in a report have no escape. -/
structure Report.Unescaped (report : Report) : Prop where
  /-- The names of directories have none. -/
  directories : ∀ row ∈ report.directories, Text.escape ∉ row.directory
  /-- The tags of the languages of directories have none. -/
  cells : ∀ row ∈ report.directories, ∀ entry ∈ row.languages, Text.escape ∉ entry.language
  /-- The tags of languages have none. -/
  languages : ∀ row ∈ report.languages, Text.escape ∉ row.language

/-- Languages with their lines are written without an escape when their tags have none. -/
theorem LanguageCount.escape_not_mem_joined {languages : List LanguageCount}
    (tags : ∀ entry ∈ languages, Text.escape ∉ entry.language) :
    Text.escape ∉ LanguageCount.joined languages := by
  have item : ∀ entry ∈ languages,
      Text.escape ∉ entry.language ++ '=' :: decimalText entry.lines := fun entry inside =>
    List.not_mem_append (tags entry inside)
      (List.not_mem_cons_of_ne_of_not_mem (by decide) (escape_not_mem_decimalText _))
  unfold LanguageCount.joined
  clear tags
  induction languages with
  | nil => exact List.not_mem_nil
  | cons first others step =>
    obtain ⟨firstItem, otherItems⟩ := List.forall_mem_cons.mp item
    rcases eq_or_ne others [] with rfl | more
    · rwa [List.map_singleton, List.intercalate_singleton]
    · rw [List.map_cons, List.intercalate_cons_of_ne_nil (by simpa using more)]
      exact List.not_mem_append (List.not_mem_append firstItem (by decide)) (step otherItems)

/-- The coloured line of a directory decorates the plain one. -/
theorem DirectoryRow.line_decorates {row : DirectoryRow} (directory : Text.escape ∉ row.directory)
    (tags : ∀ entry ∈ row.languages, Text.escape ∉ entry.language) :
    Decorates (row.line true) (row.line false) := by
  have total := Decorates.of_unescaped
    (Text.escape_not_mem_padRight (escape_not_mem_decimalText row.total) 8)
  have name := Decorates.of_unescaped (Text.escape_not_mem_padRight directory 16)
  refine (total.append name).append ?_
  split
  · exact .apply .yellow (by decide)
  · exact .of_unescaped (LanguageCount.escape_not_mem_joined tags)

/-- The coloured line of a language decorates the plain one. -/
theorem LanguageRow.line_decorates {row : LanguageRow} (tag : Text.escape ∉ row.language) :
    Decorates (row.line true) (row.line false) := by
  have name := Decorates.apply .cyan (Text.escape_not_mem_padRight tag 13)
  have lines := Decorates.of_unescaped
    (Text.escape_not_mem_padLeft (escape_not_mem_decimalText row.lines) 7)
  have share := Decorates.of_unescaped (Double.escape_not_mem_twoPlaces (.ofFloat row.percent))
  exact (((name.append lines).append (.of_unescaped (by decide))).append share).append
    (.of_unescaped (by decide))

namespace Report

/-- The coloured lines of the estimate decorate the plain ones. -/
theorem estimateLines_decorates (report : Report) :
    List.Forall₂ Decorates (report.estimateLines true) (report.estimateLines false) := by
  have amounts : ∀ value, Text.escape ∉ amount value :=
    fun value => Double.escape_not_mem_twoPlaces _
  have money : ∀ value, Text.escape ∉ dollars value := fun value => escape_not_mem_groupThousands _
  unfold estimateLines
  refine .cons ?total (List.forall₂_same.mpr ?others)
  case total =>
    exact (Decorates.of_unescaped (by decide)).append
      (.apply .green (escape_not_mem_groupThousands _))
  case others =>
    refine fun line inside => .of_unescaped ?_
    revert line
    simp only [List.forall_mem_cons, List.mem_append, not_or, amounts, money, not_false_eq_true,
      and_true]
    decide +kernel

/-- The coloured lines of a report decorate the plain ones. -/
theorem plainLines_decorates {report : Report} (unescaped : report.Unescaped) :
    List.Forall₂ Decorates (report.plainLines true) (report.plainLines false) := by
  have blank : Decorates [] [] := .of_unescaped List.not_mem_nil
  have heading : List.Forall₂ Decorates
      ["Computing results.".toList, [],
        Paint.bold.apply true "SLOC\tDirectory\tSLOC-by-Language (Sorted)".toList]
      ["Computing results.".toList, [],
        Paint.bold.apply false "SLOC\tDirectory\tSLOC-by-Language (Sorted)".toList] :=
    .cons (.of_unescaped (by decide)) (.cons blank (.cons (.apply .bold (by decide)) .nil))
  have directories : List.Forall₂ Decorates (report.directories.map (DirectoryRow.line true))
      (report.directories.map (DirectoryRow.line false)) := by
    rw [List.forall₂_map_left_iff, List.forall₂_map_right_iff, List.forall₂_same]
    exact fun row inside => DirectoryRow.line_decorates (unescaped.directories row inside)
      (unescaped.cells row inside)
  have totals : List.Forall₂ Decorates
      [[], [], Paint.bold.apply true
        "Totals grouped by language (dominant language first):".toList]
      [[], [], Paint.bold.apply false
        "Totals grouped by language (dominant language first):".toList] :=
    .cons blank (.cons blank (.cons (.apply .bold (by decide)) .nil))
  have languages : List.Forall₂ Decorates (report.languages.map (LanguageRow.line true))
      (report.languages.map (LanguageRow.line false)) := by
    rw [List.forall₂_map_left_iff, List.forall₂_map_right_iff, List.forall₂_same]
    exact fun row inside => LanguageRow.line_decorates (unescaped.languages row inside)
  have creditUnescaped : ∀ line ∈ creditLines, Text.escape ∉ line := by decide +kernel
  have credit : List.Forall₂ Decorates creditLines creditLines :=
    List.forall₂_same.mpr fun line inside => .of_unescaped (creditUnescaped line inside)
  have blanks : List.Forall₂ Decorates [[], []] [[], []] := .cons blank (.cons blank .nil)
  exact List.rel_append (List.rel_append (List.rel_append (List.rel_append (List.rel_append
    (List.rel_append (List.rel_append heading directories) totals) languages) blanks)
    report.estimateLines_decorates) (.cons blank .nil)) credit

/-- A text report that always has colour is, without its control sequences, the report that never
has colour, and there is no escape in the latter. -/
theorem onlyColoured {report : Report} (unescaped : report.Unescaped) (display other : Display) :
    Text.withoutSequences (report.render .plain (ColourChoice.always.onDisplay display)) =
        report.render .plain (ColourChoice.never.onDisplay other) ∧
      Text.escape ∉ report.render .plain (ColourChoice.never.onDisplay other) := by
  have decorates : Decorates (report.plain true) (report.plain false) :=
    .ended (plainLines_decorates unescaped)
  refine ⟨?_, decorates.unescaped⟩
  have stripped := decorates.stripped []
  rw [List.append_nil, Text.withoutSequences, List.append_nil] at stripped
  exact stripped

/-- The lines of a report with a directory without languages, too, have colour and nothing else. -/
theorem onlyColoured_emptyDirectory :
    let report : Report :=
      { directories := [⟨"docs".toList, 0, []⟩, ⟨"src".toList, 3, [⟨"py".toList, 3⟩]⟩]
        languages := [⟨"py".toList, 3, 100.0⟩]
        totalLines := 3
        estimate := Estimate.ofSourceLines 3 }
    report.Unescaped ∧
      Text.withoutSequences (report.render .plain (ColourChoice.always.onDisplay {})) =
          report.render .plain (ColourChoice.never.onDisplay {}) ∧
        Text.escape ∉ report.render .plain (ColourChoice.never.onDisplay {}) := by
  intro report
  have unescaped : report.Unescaped := {
    directories := show ∀ row ∈ [_, _], _ by simp [Text.escape]
    cells := show ∀ row ∈ [_, _], _ by simp [Text.escape]
    languages := show ∀ row ∈ [_], _ by simp [Text.escape] }
  exact ⟨unescaped, onlyColoured unescaped {} {}⟩

end Report

end LineCensus
