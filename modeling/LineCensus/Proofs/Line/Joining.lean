import LineCensus.Proofs.Line.Counting

/-!
# Counting a text in parts

A text may be cut where a line ends and counted part by part. A line ends between two texts when the
first leaves no line open and the cut is not between the carriage return and the line feed of one
line end (`Text.LineEndsBetween`). Then the lines of the joined text are those of both texts
(`Text.lines_append`), though the chunks need not be: a carriage return may end the first text in
the middle of a chunk. So counting goes on with the second text in the context that the first leaves,
and the numbers add up (`Grammar.countText_append`).
-/
namespace LineCensus

namespace Text

/-- A line ends where two texts are joined. -/
structure LineEndsBetween (front back : Text) : Prop where
  /-- The first text leaves no line open. -/
  closed : front = [] ∨ front.getLast? = some '\n' ∨ front.getLast? = some '\r'
  /-- The cut does not fall into a line end of a carriage return and a line feed. -/
  apart : ¬ (front.getLast? = some '\r' ∧ back.head? = some '\n')

instance (front back : Text) : Decidable (LineEndsBetween front back) :=
  decidable_of_iff (_ ∧ _) ⟨fun both => ⟨both.1, both.2⟩, fun ends => ⟨ends.closed, ends.apart⟩⟩

/-- A line that ends after a text ends after the text without its first character. -/
theorem LineEndsBetween.tail {char : Char} {rest back : Text}
    (ends : LineEndsBetween (char :: rest) back) : LineEndsBetween rest back := by
  cases rest with
  | nil => exact ⟨.inl rfl, fun both => Option.some_ne_none _ both.1.symm⟩
  | cons next rest =>
    obtain ⟨closed, apart⟩ := ends
    rw [List.getLast?_cons_cons] at closed apart
    exact ⟨.inr (closed.resolve_left (List.cons_ne_nil _ _)), apart⟩

/-- A line that ends after a single character ends with it, also where a text is joined. -/
theorem LineEndsBetween.endsLine {char : Char} {back : Text}
    (ends : LineEndsBetween [char] back) : EndsLine (char :: back) := by
  rcases ends.closed with none_left | feed | carriage
  · exact absurd none_left (List.cons_ne_nil _ _)
  · exact .inl (Option.some.inj feed)
  · exact .inr ⟨Option.some.inj carriage, fun feed => ends.apart ⟨carriage, feed⟩⟩

/-- A character that ends a line of a joined text ends it in the first text alone. -/
theorem EndsLine.of_append {char : Char} {rest back : Text}
    (ends : EndsLine (char :: (rest ++ back))) : EndsLine (char :: rest) := by
  refine ends.imp_right fun ⟨carriage, no_feed⟩ => ⟨carriage, fun feed => no_feed ?_⟩
  rw [List.head?_append, feed]
  rfl

/-- Characters in front of the first line do not change the lines after it. -/
theorem ontoFirst_append (line : Text) {lines : List Text} (some_line : lines ≠ [])
    (others : List Text) : ontoFirst line (lines ++ others) = ontoFirst line lines ++ others := by
  cases lines with
  | nil => exact absurd rfl some_line
  | cons first rest => rfl

/-- The lines of two texts joined where a line ends are the lines of both. -/
theorem lines_append {front back : Text} (ends : LineEndsBetween front back) :
    lines (front ++ back) = lines front ++ lines back := by
  induction front with
  | nil => rfl
  | cons char rest step =>
    have later : lines (rest ++ back) = lines rest ++ lines back := step ends.tail
    by_cases here : EndsLine (char :: (rest ++ back))
    · rw [List.cons_append, lines_of_endsLine here, lines_of_endsLine here.of_append, later,
        List.cons_append]
    · -- the line goes on, so the character is not the last of the first text
      have some_rest : rest ≠ [] := by
        rintro rfl
        exact here ends.endsLine
      obtain ⟨no_feed, feed_after⟩ := not_or.mp here
      by_cases no_return : char = '\r'
      · subst no_return
        obtain ⟨next, others, rfl⟩ := List.exists_cons_of_ne_nil some_rest
        obtain rfl : next = '\n' := by simpa using feed_after
        exact later
      · rw [List.cons_append, lines_cons no_feed no_return, lines_cons no_feed no_return, later,
          ontoFirst_append _ (lines_ne_nil some_rest)]

end Text

/-- Numbers of lines added kind by kind. -/
instance : Add LineCount where
  add left right :=
    { total := left.total + right.total
      code := left.code + right.code
      comment := left.comment + right.comment
      blank := left.blank + right.blank }

namespace Grammar

/-- What has been counted before is added to what is counted. -/
theorem count_countFrom_eq_add (grammar : Grammar) (counting : Counting) (lines : List Text) :
    (grammar.countFrom counting lines).count =
      counting.count + (grammar.countFrom { context := counting.context } lines).count := by
  obtain ⟨count, context⟩ := counting
  rw [count_countFrom_add, count_countFrom_add]
  simp only [Nat.zero_add]
  rfl

/-- The count of two texts joined where a line ends is that of the first, added to that of the
second from the context that the first leaves. Where this is outside of block comments, each text is
counted for itself. -/
theorem countText_append (grammar : Grammar) {front back : Text}
    (ends : Text.LineEndsBetween front back) :
    grammar.countText (front ++ back) = grammar.countText front +
      (grammar.countFrom { context := (grammar.countFrom {} front.lines).context }
        back.lines).count ∧
    ((grammar.countFrom {} front.lines).context = .outside →
      grammar.countText (front ++ back) = grammar.countText front + grammar.countText back) := by
  have joined : grammar.countText (front ++ back) = grammar.countText front +
      (grammar.countFrom { context := (grammar.countFrom {} front.lines).context }
        back.lines).count := by
    unfold countText
    rw [Text.lines_append ends, countFrom_append, count_countFrom_eq_add]
  refine ⟨joined, fun outside => ?_⟩
  rw [joined, outside]
  rfl

/-- A carriage return ends the first text in the middle of a chunk and in a block comment, and the
second text closes the comment. Cut after the comment, both parts are counted each for itself. -/
theorem countText_append_midChunk :
    Text.LineEndsBetween "x /*\r".toList "y\n*/\r\n\rz".toList ∧
      (slashes.countFrom {} (Text.lines "x /*\r".toList)).context = .inside "*/".toList ∧
      slashes.countText ("x /*\r".toList ++ "y\n*/\r\n\rz".toList) =
        ⟨1, 1, 0, 0⟩ + ⟨4, 1, 2, 1⟩ ∧
      Text.LineEndsBetween "x /*\ry\n*/\r\n".toList "\rz".toList ∧
      slashes.countText ("x /*\ry\n*/\r\n".toList ++ "\rz".toList) =
        slashes.countText "x /*\ry\n*/\r\n".toList + slashes.countText "\rz".toList := by
  have inComment : Text.LineEndsBetween "x /*\r".toList "y\n*/\r\n\rz".toList := by decide
  have outside : Text.LineEndsBetween "x /*\ry\n*/\r\n".toList "\rz".toList := by decide
  exact ⟨inComment, by decide, (slashes.countText_append inComment).1.trans (by decide), outside,
    (slashes.countText_append outside).2 (by decide)⟩

-- a carriage return and a line feed are one line end, and cut apart they are two
example : hash.countText ("\r".toList ++ "\n".toList) ≠
    hash.countText "\r".toList + hash.countText "\n".toList := by
  decide

end Grammar

end LineCensus
