import LineCensus.Proofs.Line.Counting

/-!
# Line ends written in other ways

A line end may be written as a line feed, as a carriage return and a line feed, or as a carriage
return. A text with line feeds alone keeps its lines when some or all of them are written otherwise
(`Text.Rewritten.lines_eq`), as long as no carriage return comes to stand before a line feed that it
does not belong to. This is so where carriage returns are put before any of the line feeds, and
where they take the places of all line feeds, whatever empty lines there are. So the text is counted
alike, and its bytes are (`Grammar.countsAlike_of_converted`).
-/
namespace LineCensus

namespace Text

/-- A text and the same text with some line feeds written in another way. -/
inductive Rewritten : Text → Text → Prop where
  /-- Nothing is left. -/
  | nil : Rewritten [] []
  /-- A character other than a line feed stays. -/
  | char {char : Char} {text other : Text} (no_feed : char ≠ '\n') (rest : Rewritten text other) :
    Rewritten (char :: text) (char :: other)
  /-- A line feed stays. -/
  | feed {text other : Text} (rest : Rewritten text other) :
    Rewritten ('\n' :: text) ('\n' :: other)
  /-- A carriage return is put before a line feed. -/
  | returnFeed {text other : Text} (rest : Rewritten text other) :
    Rewritten ('\n' :: text) ('\r' :: '\n' :: other)
  /-- A carriage return takes the place of a line feed, and no line feed comes next. -/
  | onlyReturn {text other : Text} (alone : other.head? ≠ some '\n') (rest : Rewritten text other) :
    Rewritten ('\n' :: text) ('\r' :: other)

/-- A carriage return is put before the line feeds at the chosen places of a text. -/
def withReturnsBefore (chosen : Nat → Bool) (text : Text) : Text :=
  text.zipIdx.flatMap fun placed =>
    if placed.1 = '\n' ∧ chosen placed.2 then ['\r', '\n'] else [placed.1]

/-- A carriage return takes the place of each line feed of a text. -/
def withReturnsFor (text : Text) : Text := text.map fun char => if char = '\n' then '\r' else char

/-- A text without carriage returns keeps its lines when line feeds are written in another way. -/
theorem Rewritten.lines_eq {text other : Text} (rewritten : Rewritten text other)
    (no_return : '\r' ∉ text) : lines other = lines text := by
  induction rewritten with
  | nil => rfl
  | char no_feed _ step =>
    have differs := (List.ne_of_not_mem_cons no_return).symm
    rw [lines_cons no_feed differs, lines_cons no_feed differs,
      step (List.not_mem_of_not_mem_cons no_return)]
  | feed _ step => rw [lines_feed, lines_feed, step (List.not_mem_of_not_mem_cons no_return)]
  | returnFeed _ step =>
    rw [lines_return_feed, lines_feed, step (List.not_mem_of_not_mem_cons no_return)]
  | onlyReturn alone _ step =>
    rw [lines_return alone, lines_feed, step (List.not_mem_of_not_mem_cons no_return)]

/-- Carriage returns before line feeds are another way to write them. -/
theorem rewritten_withReturnsBefore (chosen : Nat → Bool) (text : Text) :
    Rewritten text (withReturnsBefore chosen text) := by
  unfold withReturnsBefore
  generalize 0 = start
  induction text generalizing start with
  | nil => exact .nil
  | cons char rest step =>
    have later := step (start + 1)
    rw [List.zipIdx_cons, List.flatMap_cons]
    split
    · next here =>
      obtain ⟨rfl, -⟩ : char = '\n' ∧ chosen start = true := here
      exact .returnFeed later
    · by_cases feed : char = '\n'
      · subst feed
        exact .feed later
      · exact .char feed later

/-- No line feed is left where carriage returns take their places. -/
theorem head?_withReturnsFor (text : Text) : (withReturnsFor text).head? ≠ some '\n' := by
  unfold withReturnsFor
  cases text with
  | nil => exact Option.some_ne_none _ ∘ Eq.symm
  | cons char rest =>
    rw [List.map_cons, List.head?_cons]
    intro same
    have first := Option.some.inj same
    split at first
    · exact absurd first (by decide)
    · next differs => exact differs first

/-- Carriage returns in place of line feeds are another way to write them. -/
theorem rewritten_withReturnsFor (text : Text) : Rewritten text (withReturnsFor text) := by
  induction text with
  | nil => exact .nil
  | cons char rest step =>
    unfold withReturnsFor at step ⊢
    rw [List.map_cons]
    split
    · next feed =>
      subst feed
      exact .onlyReturn (head?_withReturnsFor rest) step
    · next differs => exact .char differs step

end Text

namespace Grammar

/-- Two texts are counted alike, and so are their bytes. -/
structure CountsAlike (grammar : Grammar) (text other : Text) : Prop where
  /-- The numbers of lines of each kind are the same. -/
  texts : grammar.countText other = grammar.countText text
  /-- They are the same for the bytes of the texts. -/
  bytes : grammar.countBytes other.utf8 = grammar.countBytes text.utf8

/-- Texts with the same lines are counted alike. -/
theorem countsAlike_of_lines_eq (grammar : Grammar) {text other : Text}
    (same : other.lines = text.lines) : grammar.CountsAlike text other := by
  constructor
  case texts =>
    unfold countText
    rw [same]
  case bytes =>
    unfold countBytes
    rw [Bytes.lines_decode, Bytes.lines_decode, Utf8.decode_utf8, Utf8.decode_utf8, same]

/-- A text without carriage returns is counted alike when carriage returns are put before any of its
line feeds, and when they take the places of all of them. -/
theorem countsAlike_of_converted (grammar : Grammar) {text : Text} (no_return : '\r' ∉ text) :
    (∀ chosen : Nat → Bool, grammar.CountsAlike text (text.withReturnsBefore chosen)) ∧
      grammar.CountsAlike text text.withReturnsFor := by
  constructor
  · intro chosen
    have rewritten := Text.rewritten_withReturnsBefore chosen text
    exact grammar.countsAlike_of_lines_eq (rewritten.lines_eq no_return)
  · have rewritten := Text.rewritten_withReturnsFor text
    exact grammar.countsAlike_of_lines_eq (rewritten.lines_eq no_return)

/-- A block comment over empty lines, with empty lines before and after it. -/
def commentBetweenEmptyLines : Text := "\n\nx /*\n\né\n*/\n\n".toList

/-- This text is counted alike with a carriage return before every other line feed and with carriage
returns only. -/
theorem countsAlike_commentBetweenEmptyLines :
    '\r' ∉ commentBetweenEmptyLines ∧
      commentBetweenEmptyLines.withReturnsBefore (fun place => place % 2 = 1) =
        "\n\r\nx /*\n\r\né\r\n*/\n\r\n".toList ∧
      commentBetweenEmptyLines.withReturnsFor = "\r\rx /*\r\ré\r*/\r\r".toList ∧
      slashes.countText "\n\r\nx /*\n\r\né\r\n*/\n\r\n".toList = ⟨7, 1, 2, 4⟩ ∧
      slashes.countText "\r\rx /*\r\ré\r*/\r\r".toList = ⟨7, 1, 2, 4⟩ ∧
      slashes.countBytes (Text.utf8 "\r\rx /*\r\ré\r*/\r\r".toList) = ⟨7, 1, 2, 4⟩ := by
  have no_return : '\r' ∉ commentBetweenEmptyLines := by decide
  have alike := slashes.countsAlike_of_converted no_return
  have counted : slashes.countText commentBetweenEmptyLines = ⟨7, 1, 2, 4⟩ := by decide
  have countedBytes : slashes.countBytes commentBetweenEmptyLines.utf8 = ⟨7, 1, 2, 4⟩ := by
    decide +kernel
  exact ⟨no_return, by decide, by decide, (alike.1 fun place => place % 2 = 1).texts.trans counted,
    alike.2.texts.trans counted, alike.2.bytes.trans countedBytes⟩

end Grammar

end LineCensus
