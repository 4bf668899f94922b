import LineCensus.Text.Basic
import Mathlib.Data.List.TakeWhile

/-!
# What trimming leaves

A line is trimmed to the text in it that stands between blanks and neither begins nor ends with
one. Every line has exactly one such text, and `Text.trim` finds it (`Text.trimsTo_iff`).
-/
namespace LineCensus

namespace Text

/-- A text stands in a line between blanks, and has no blank at either end. -/
structure TrimsTo (line core : Text) : Prop where
  /-- There are only blanks around it. -/
  surrounded : ∃ front back : Text, line = front ++ core ++ back ∧ front.isBlank ∧ back.isBlank
  /-- It does not begin with a blank. -/
  starts : ∀ char, core.head? = some char → isBlankChar char = false
  /-- It does not end with a blank. -/
  ends : ∀ char, core.getLast? = some char → isBlankChar char = false

/-- Blanks in front of a text are dropped. -/
theorem dropBlanks_append {front : Text} (blank : front.isBlank) (rest : Text) :
    dropBlanks (front ++ rest) = dropBlanks rest :=
  List.dropWhile_append_of_pos (List.all_eq_true.mp blank)

/-- Nothing is dropped from a text that does not begin with a blank. -/
theorem dropBlanks_of_starts {text : Text}
    (starts : ∀ char, text.head? = some char → isBlankChar char = false) :
    dropBlanks text = text := by
  cases text with
  | nil => rfl
  | cons char rest =>
    have visible : ¬ isBlankChar char = true := by
      rw [starts char rfl]
      decide
    exact List.dropWhile_cons_of_neg visible

/-- What is left does not begin with a blank. -/
theorem starts_dropBlanks {text : Text} {char : Char}
    (first : (dropBlanks text).head? = some char) : isBlankChar char = false := by
  have stopped := List.head?_dropWhile_not isBlankChar text
  unfold dropBlanks at first
  rw [first] at stopped
  exact stopped

/-- What is dropped is blank. -/
theorem append_dropBlanks (text : Text) :
    ∃ front : Text, text = front ++ dropBlanks text ∧ front.isBlank :=
  ⟨text.takeWhile isBlankChar, List.takeWhile_append_dropWhile.symm, List.all_takeWhile⟩

/-- Blank texts make a blank text. -/
theorem isBlank_append (front back : Text) :
    isBlank (front ++ back) = (front.isBlank && back.isBlank) := List.all_append

/-- A blank text is blank in reverse. -/
theorem isBlank_reverse (text : Text) : isBlank text.reverse = text.isBlank := List.all_reverse

/-- Nothing is left of a text by dropping blanks exactly when it is blank. -/
theorem dropBlanks_eq_nil_iff {text : Text} : dropBlanks text = [] ↔ text.isBlank := by
  unfold dropBlanks isBlank
  rw [List.dropWhile_eq_nil_iff, List.all_eq_true]

/-- Nothing is left of a line by trimming exactly when it is blank. -/
theorem trim_eq_nil_iff {line : Text} : line.trim = [] ↔ line.isBlank := by
  unfold trim
  rw [List.reverse_eq_nil_iff, dropBlanks_eq_nil_iff, isBlank_reverse]
  constructor
  · intro blank
    obtain ⟨front, whole, dropped⟩ := append_dropBlanks line
    rw [whole, isBlank_append, dropped, blank]
    rfl
  · intro blank
    rw [dropBlanks_eq_nil_iff.mpr blank]
    rfl

/-- A line is trimmed to what trimming leaves, and to nothing else. -/
theorem trimsTo_iff {line core : Text} : TrimsTo line core ↔ line.trim = core := by
  constructor
  · rintro ⟨⟨front, back, whole, before, after⟩, starts, ends⟩
    cases core with
    | nil =>
      rw [List.append_nil] at whole
      rw [trim_eq_nil_iff, whole, isBlank_append, before, after]
      rfl
    | cons char rest =>
      have fromFront : dropBlanks line = char :: rest ++ back := by
        rw [whole, List.append_assoc, dropBlanks_append before]
        exact dropBlanks_of_starts starts
      have fromBack : dropBlanks (char :: rest ++ back).reverse = (char :: rest).reverse := by
        rw [List.reverse_append, dropBlanks_append (back.isBlank_reverse.trans after)]
        refine dropBlanks_of_starts fun last first => ends last ?_
        rw [← first, List.head?_reverse]
      unfold trim
      rw [fromFront, fromBack, List.reverse_reverse]
  · rintro rfl
    obtain ⟨front, whole, before⟩ := append_dropBlanks line
    obtain ⟨back, rest, after⟩ := append_dropBlanks (dropBlanks line).reverse
    have kept : dropBlanks line = line.trim ++ back.reverse := by
      rw [← List.reverse_reverse (dropBlanks line), rest, List.reverse_append]
      rfl
    constructor
    · refine ⟨front, back.reverse, ?_, before, back.isBlank_reverse.trans after⟩
      rw [List.append_assoc, ← kept]
      exact whole
    · intro char first
      apply starts_dropBlanks
      rw [kept, List.head?_append, first]
      rfl
    · intro char last
      apply starts_dropBlanks
      rw [← last]
      unfold trim
      rw [List.getLast?_reverse]

/-- Trimming twice leaves what trimming once does. -/
theorem trim_trim (line : Text) : line.trim.trim = line.trim := by
  have once : TrimsTo line line.trim := trimsTo_iff.mpr rfl
  exact trimsTo_iff.mp ⟨⟨[], [], (List.append_nil _).symm, rfl, rfl⟩, once.starts, once.ends⟩

end Text

end LineCensus
