import Mathlib.Data.List.Infix
import LineCensus.Text.Lines

/-!
# Physical lines in one pass

A text read from left to right has a line up to every carriage return with a line feed, every
other line feed and every other carriage return, and a last one up to its end if something is
left by then (`scanLines`). The two levels of `Text.lines`, chunks up to line feeds and then pieces
between carriage returns, find these lines (`lines_eq_scanLines`). It comes down to what a character
in front does to the lines of a text (`lines_cons`).

A line ends at every line feed and at every carriage return without a line feed after it
(`EndsLine`), so the number of lines is the number of these places, and one more for an open last
line (`length_lines`).
-/
namespace LineCensus.Text

/-- The lines of a text, where the characters of the line that is being read are held. -/
def scanFrom (line : Text) : Text → List Text
  | [] => if line = [] then [] else [line]
  | '\r' :: '\n' :: rest => line :: scanFrom [] rest
  | '\n' :: rest => line :: scanFrom [] rest
  | '\r' :: rest => line :: scanFrom [] rest
  | char :: rest => scanFrom (line ++ [char]) rest

/-- The lines of a text, read from left to right. -/
def scanLines (text : Text) : List Text := scanFrom [] text

/-- A line ends with the first character of a text: with a line feed, or with a carriage return
that has no line feed after it. -/
def EndsLine : Text → Prop
  | [] => False
  | char :: rest => char = '\n' ∨ char = '\r' ∧ rest.head? ≠ some '\n'

instance : DecidablePred EndsLine
  | [] => inferInstanceAs (Decidable False)
  | char :: rest => inferInstanceAs (Decidable (char = '\n' ∨ char = '\r' ∧ rest.head? ≠ some '\n'))

/-- The number of places in a text where a line ends. -/
def lineEnds (text : Text) : Nat := text.tails.countP (EndsLine ·)

/-- The last line of a text is open: there is one, and no character that ends a line ends it. -/
def LeavesOpen (text : Text) : Prop :=
  text ≠ [] ∧ text.getLast? ≠ some '\n' ∧ text.getLast? ≠ some '\r'

instance (text : Text) : Decidable (LeavesOpen text) := inferInstanceAs (Decidable (_ ∧ _))

/-- Puts characters in front of the first line, or makes a line of them where there is none. -/
def ontoFirst (line : Text) : List Text → List Text
  | [] => if line = [] then [] else [line]
  | first :: others => (line ++ first) :: others

/-- Nothing in front changes nothing. -/
@[simp] theorem ontoFirst_nil (lines : List Text) : ontoFirst [] lines = lines := by
  cases lines <;> rfl

/-- What is put in front one after the other can be put there together. -/
theorem ontoFirst_ontoFirst (line : Text) (char : Char) (lines : List Text) :
    ontoFirst line (ontoFirst [char] lines) = ontoFirst (line ++ [char]) lines := by
  cases lines with
  | nil => simp [ontoFirst]
  | cons first others => simp [ontoFirst]

/-- A character with others after it, or another one than asked for, is not dropped. -/
theorem dropLastChar_cons {last char : Char} {text : Text} (kept : text ≠ [] ∨ char ≠ last) :
    dropLastChar last (char :: text) = char :: dropLastChar last text := by
  unfold dropLastChar
  cases text with
  | nil =>
    have different : char ≠ last := kept.resolve_left fun other => other rfl
    rw [if_neg (by simpa using different), if_neg (by simp)]
  | cons next rest =>
    rw [List.getLast?_cons_cons, List.dropLast_cons_cons]
    split <;> rfl

/-- A character that separates nothing goes onto the first part. -/
theorem pieces_cons_of_ne {separator char : Char} (different : char ≠ separator) (text : Text) :
    pieces separator (char :: text) = ontoFirst [char] (pieces separator text) := by
  rcases found : pieces separator text with _ | ⟨first, others⟩
  · exact absurd found (pieces_ne_nil separator text)
  · unfold pieces at found ⊢
    rw [List.foldr_cons, if_neg different, found]
    rfl

/-- A carriage return in front of a chunk ends a line, if the chunk is no line feed. -/
theorem chunkLines_return {chunk : Text} (some_chunk : chunk ≠ []) (no_feed : chunk ≠ ['\n']) :
    chunkLines ('\r' :: chunk) = [] :: chunkLines chunk := by
  have left : dropLastChar '\n' chunk ≠ [] := by
    cases chunk with
    | nil => exact absurd rfl some_chunk
    | cons char rest =>
      rw [dropLastChar_cons]
      · exact List.cons_ne_nil _ _
      · by_contra both
        obtain ⟨rfl, rfl⟩ : rest = [] ∧ char = '\n' := by simpa using both
        exact no_feed rfl
  unfold chunkLines
  rw [dropLastChar_cons (.inl some_chunk), dropLastChar_cons (.inl left), pieces_separator]

/-- A character that ends no line, in front of a chunk, goes onto its first line. -/
theorem chunkLines_cons {char : Char} (no_feed : char ≠ '\n') (no_return : char ≠ '\r')
    (chunk : Text) : chunkLines (char :: chunk) = ontoFirst [char] (chunkLines chunk) := by
  unfold chunkLines
  rw [dropLastChar_cons (.inr no_feed), dropLastChar_cons (.inr no_return),
    pieces_cons_of_ne no_return]

/-- A chunk has at least one line. -/
theorem chunkLines_ne_nil (chunk : Text) : chunkLines chunk ≠ [] := pieces_ne_nil _ _

/-- A character other than a line feed goes onto the first chunk. -/
theorem chunks_cons {char : Char} (no_feed : char ≠ '\n') (text : Text) :
    chunks (· = '\n') (char :: text) = ontoFirst [char] (chunks (· = '\n') text) := by
  rcases found : chunks (· = '\n') text with _ | ⟨first, others⟩ <;>
    · unfold chunks at found ⊢
      rw [List.foldr_cons, if_neg (by simpa using no_feed), found]
      rfl

/-- A text has a chunk if it has a character, and the first one begins with it. -/
theorem exists_chunk (char : Char) (text : Text) : ∃ inside others,
    chunks (· = '\n') (char :: text) = (char :: inside) :: others := by
  by_cases feed : char = '\n'
  · subst feed
    exact ⟨[], chunks (· = '\n') text, rfl⟩
  · rw [chunks_cons feed]
    rcases chunks (· = '\n') text with _ | ⟨first, others⟩
    · exact ⟨[], [], rfl⟩
    · exact ⟨first, others, rfl⟩

/-- A line feed ends a line. -/
theorem lines_feed (rest : Text) : lines ('\n' :: rest) = [] :: lines rest := rfl

/-- A carriage return and a line feed end one line. -/
theorem lines_return_feed (rest : Text) : lines ('\r' :: '\n' :: rest) = [] :: lines rest := rfl

/-- A carriage return without a line feed ends a line. -/
theorem lines_return {rest : Text} (no_feed : rest.head? ≠ some '\n') :
    lines ('\r' :: rest) = [] :: lines rest := by
  cases rest with
  | nil => rfl
  | cons next rest =>
    obtain ⟨inside, others, found⟩ := exists_chunk next rest
    have no_chunk : next :: inside ≠ ['\n'] := by
      intro same
      obtain ⟨rfl, _⟩ := List.cons.inj same
      exact no_feed rfl
    unfold lines
    rw [chunks_cons (by decide), found]
    simp only [ontoFirst, List.flatMap_cons, List.singleton_append]
    rw [chunkLines_return (List.cons_ne_nil _ _) no_chunk]
    rfl

/-- A character that ends no line goes onto the first line. -/
theorem lines_cons {char : Char} (no_feed : char ≠ '\n') (no_return : char ≠ '\r')
    (rest : Text) : lines (char :: rest) = ontoFirst [char] (lines rest) := by
  unfold lines
  rw [chunks_cons no_feed]
  rcases chunks (· = '\n') rest with _ | ⟨first, others⟩
  · simp only [ontoFirst, List.flatMap_nil, List.flatMap_cons, List.append_nil, if_false,
      List.cons_ne_nil]
    exact chunkLines_cons no_feed no_return []
  · simp only [ontoFirst, List.flatMap_cons, List.singleton_append]
    rw [chunkLines_cons no_feed no_return]
    rcases lines_first : chunkLines first with _ | ⟨line, more⟩
    · exact absurd lines_first (chunkLines_ne_nil first)
    · rfl

/-- The lines found in chunks are those read from left to right. -/
theorem lines_eq_scanLines (text : Text) : lines text = scanLines text := by
  have run : ∀ line text : Text, scanFrom line text = ontoFirst line (lines text) := by
    intro line text
    fun_induction scanFrom line text with
    | case1 => rfl
    | case2 line some_line => exact (if_neg some_line).symm
    | case3 line rest step =>
      rw [step, ontoFirst_nil, lines_return_feed, ontoFirst, List.append_nil]
    | case4 line rest step =>
      rw [step, ontoFirst_nil, lines_feed, ontoFirst, List.append_nil]
    | case5 line rest no_feed step =>
      have alone : rest.head? ≠ some '\n' := by
        intro feed
        obtain ⟨others, whole⟩ := List.head?_eq_some_iff.mp feed
        exact no_feed others whole
      rw [step, ontoFirst_nil, lines_return alone, ontoFirst, List.append_nil]
    | case6 line char rest _ no_feed no_return step =>
      rw [step, lines_cons no_feed no_return, ontoFirst_ontoFirst]
  unfold scanLines
  rw [run, ontoFirst_nil]

/-- A text with characters has lines. -/
theorem lines_ne_nil {text : Text} (some_text : text ≠ []) : lines text ≠ [] := by
  cases text with
  | nil => exact absurd rfl some_text
  | cons char rest =>
    obtain ⟨inside, others, found⟩ := exists_chunk char rest
    unfold lines
    rw [found, List.flatMap_cons]
    exact List.append_ne_nil_of_left_ne_nil (chunkLines_ne_nil _) _

/-- A character in front of others does not decide whether the last line is open. -/
theorem leavesOpen_cons (char : Char) {rest : Text} (some_rest : rest ≠ []) :
    LeavesOpen (char :: rest) ↔ LeavesOpen rest := by
  cases rest with
  | nil => exact absurd rfl some_rest
  | cons next rest =>
    unfold LeavesOpen
    rw [List.getLast?_cons_cons]
    simp

/-- A single character leaves the line open that it does not end. -/
theorem leavesOpen_singleton (char : Char) : LeavesOpen [char] ↔ ¬ EndsLine [char] := by
  simp [LeavesOpen, EndsLine]

/-- The places where a line ends are the first, if one ends there, and those after it. -/
theorem lineEnds_cons (char : Char) (rest : Text) :
    lineEnds (char :: rest) = lineEnds rest + if EndsLine (char :: rest) then 1 else 0 := by
  unfold lineEnds
  rw [List.tails_cons, List.countP_cons]
  simp

/-- Where a line ends with the first character, the lines after it are those of the rest. -/
theorem lines_of_endsLine {char : Char} {rest : Text} (ends : EndsLine (char :: rest)) :
    lines (char :: rest) = [] :: lines rest := by
  rcases ends with rfl | ⟨rfl, no_feed⟩
  · exact lines_feed rest
  · exact lines_return no_feed

/-- Where no line ends with the first character, it is on the first line of the rest, or on a line
of its own where there is none. -/
theorem length_lines_of_not_endsLine {char : Char} {rest : Text}
    (goes_on : ¬ EndsLine (char :: rest)) :
    (lines (char :: rest)).length = max 1 (lines rest).length := by
  obtain ⟨no_feed, feed_after⟩ := not_or.mp goes_on
  by_cases no_return : char = '\r'
  · subst no_return
    have feed : rest.head? = some '\n' := by simpa using feed_after
    obtain ⟨others, rfl⟩ := List.head?_eq_some_iff.mp feed
    rw [lines_return_feed, lines_feed, List.length_cons]
    omega
  · rw [lines_cons no_feed no_return]
    rcases lines rest with _ | ⟨first, others⟩
    · rfl
    · simp [ontoFirst]

/-- There is a line for each place where one ends, and an open last one. -/
theorem length_lines (text : Text) :
    (lines text).length = lineEnds text + if LeavesOpen text then 1 else 0 := by
  induction text with
  | nil => rfl
  | cons char rest step =>
    rw [lineEnds_cons]
    have goes_on : ¬ EndsLine (char :: rest) →
        (lines (char :: rest)).length = max 1 (lines rest).length :=
      length_lines_of_not_endsLine
    by_cases last : rest = []
    · subst last
      by_cases ends : EndsLine [char]
      · rw [lines_of_endsLine ends, if_pos ends, if_neg fun opens =>
          (leavesOpen_singleton char).mp opens ends]
        rfl
      · rw [goes_on ends, if_neg ends, if_pos ((leavesOpen_singleton char).mpr ends)]
        rfl
    · have later := List.length_pos_of_ne_nil (lines_ne_nil last)
      simp only [leavesOpen_cons char last]
      by_cases ends : EndsLine (char :: rest)
      · rw [lines_of_endsLine ends, if_pos ends, List.length_cons]
        omega
      · rw [goes_on ends, if_neg ends]
        omega

end LineCensus.Text
