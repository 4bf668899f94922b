import LineCensus.Proofs.Line.Reading
import LineCensus.Proofs.Text.Surrounded

/-!
# Inside a block comment

Nothing in a block comment is read but its closer: lines without it leave the comment open, whatever
else they hold (`Grammar.readings_hidden`). After the closer the line is read like a line of its own
that begins outside of comments. The remainder of the line keeps the blanks that trimming would take
from such a line, so this holds where blanks cannot change what is left of a text, which is where
the tokens are firm (`Grammar.residual_outside`).

Both are laws of a run over any number of lines (`Grammar.Encloses`).
-/
namespace LineCensus

open Text

namespace Grammar

/-- All tokens of a grammar are firm. -/
structure Firm (grammar : Grammar) : Prop where
  /-- The tokens of line comments. -/
  lineTokens : ∀ token ∈ grammar.lineTokens, token.Firm
  /-- The tokens that open block comments. -/
  openers : ∀ pair ∈ grammar.blockPairs, pair.opener.Firm
  /-- The tokens that close them. -/
  closers : ∀ pair ∈ grammar.blockPairs, pair.closer.Firm

/-- The contexts that reading lines leads to, from the outside on. -/
inductive Reachable (grammar : Grammar) : Context → Prop where
  /-- No line has been read. -/
  | outside : Reachable grammar .outside
  /-- Another line has been read. -/
  | line {context : Context} (before : Reachable grammar context) (line : Text) :
    Reachable grammar (grammar.residual context line).context

/-- The kind of each line and what is left of it, where each line begins in the context that the
line before it leaves. -/
def readings (grammar : Grammar) : Context → List Text → List (LineKind × Residual)
  | _, [] => []
  | context, line :: others =>
    ((grammar.classify context line).1, grammar.residual context line) ::
      grammar.readings (grammar.classify context line).2 others

/-- The reading of a line that is all in a block comment. -/
def hidden (closer line : Text) : LineKind × Residual :=
  (if line.isBlank then .blank else .comment, ⟨[], .inside closer⟩)

/-- A block comment that is open goes on up to its closer, and no further. -/
structure Encloses (grammar : Grammar) (closer : Text) : Prop where
  /-- Lines without the closer are blank or comments. Nothing is left of them, and the comment stays
  open. -/
  hides : ∀ lines : List Text, (∀ line ∈ lines, ¬ Occurs closer line.trim) →
    grammar.readings (.inside closer) lines = lines.map (hidden closer)
  /-- Of the first line with the closer there is left what is left of the text after the closer,
  and the next line begins in the same context. -/
  resumes : ∀ (lines : List Text) (line before after : Text) (rest : List Text),
    (∀ line ∈ lines, ¬ Occurs closer line.trim) → Leftmost closer line.trim before after →
    grammar.residual (.inside closer) line = grammar.residual .outside after ∧
    grammar.readings (.inside closer) (lines ++ line :: rest) = lines.map (hidden closer) ++
      (kindOfLeft (grammar.residual .outside after).text, grammar.residual .outside after) ::
        grammar.readings (grammar.residual .outside after).context rest
  /-- Where the line ends after the closer and the text after it is a line, the first is a comment
  of which nothing is left, and the rest is read as without the break. -/
  breaks : ∀ (lines : List Text) (line before after : Text) (rest : List Text),
    (∀ line ∈ lines, ¬ Occurs closer line.trim) → Leftmost closer line.trim before after →
    grammar.readings (.inside closer) (lines ++ (before ++ closer) :: after :: rest) =
      lines.map (hidden closer) ++ (.comment, ⟨[], .outside⟩) ::
        ((grammar.classify .outside after).1, grammar.residual (.inside closer) line) ::
          grammar.readings (grammar.residual (.inside closer) line).context rest

section Surrounded

variable {grammar : Grammar} {front back : Text}

/-- Blanks around a text are around what is left of it without its line comment. -/
theorem withoutLineComment_surrounded (firm : grammar.Firm) (blankFront : front.isBlank)
    (blankBack : back.isBlank) (text : Text) : ∃ rest : Text, rest.isBlank ∧
      grammar.withoutLineComment (front ++ text ++ back) =
        front ++ grammar.withoutLineComment text ++ rest := by
  have moved : ∀ tokens : List Text, (∀ token ∈ tokens, token.Firm) →
      (tokens.findSome? fun token => cut? (front ++ text ++ back) token) =
        (tokens.findSome? fun token => cut? text token).map
          fun cut => ⟨front ++ cut.before, cut.after ++ back⟩ := by
    intro tokens tokensFirm
    induction tokens with
    | nil => rfl
    | cons token others step =>
      rw [List.findSome?_cons, List.findSome?_cons,
        cut?_surrounded (tokensFirm token List.mem_cons_self) blankFront blankBack]
      rcases cut? text token with - | cut
      · exact step fun other inside => tokensFirm other (List.mem_cons_of_mem token inside)
      · rfl
  unfold withoutLineComment
  rw [moved _ firm.lineTokens]
  rcases grammar.lineTokens.findSome? fun token => cut? text token with - | cut
  · exact ⟨back, blankBack, rfl⟩
  · exact ⟨[], rfl, (List.append_nil _).symm⟩

/-- Blanks around a text are around what is left of it without its block comments, and do not change
the context. -/
theorem withoutBlocks_surrounded {pairs : List BlockPair}
    (openers : ∀ pair ∈ pairs, pair.opener.Firm) (closers : ∀ pair ∈ pairs, pair.closer.Firm)
    (blankFront : front.isBlank) (blankBack : back.isBlank) (text : Text) :
    ∃ rest : Text, rest.isBlank ∧ withoutBlocks pairs (front ++ text ++ back) =
      ⟨front ++ (withoutBlocks pairs text).text ++ rest, (withoutBlocks pairs text).context⟩ := by
  induction pairs generalizing text with
  | nil => exact ⟨back, blankBack, rfl⟩
  | cons pair others step =>
    have later := step (fun other inside => openers other (List.mem_cons_of_mem pair inside))
      fun other inside => closers other (List.mem_cons_of_mem pair inside)
    unfold withoutBlocks
    rw [cut?_surrounded (openers pair List.mem_cons_self) blankFront blankBack]
    rcases cut? text pair.opener with - | opened
    · exact later text
    · have closing : cut? ([] ++ opened.after ++ back) pair.closer = _ :=
        cut?_surrounded (closers pair List.mem_cons_self) rfl blankBack opened.after
      rw [List.nil_append] at closing
      simp only [Option.map_some]
      rw [closing]
      rcases cut? opened.after pair.closer with - | closed
      · exact ⟨[], rfl, by simp⟩
      · simpa using later (opened.before ++ closed.after)

/-- Blanks around a text do not change what is left of it outside of block comments. -/
theorem outsideResidual_surrounded (firm : grammar.Firm) (blankFront : front.isBlank)
    (blankBack : back.isBlank) (text : Text) :
    grammar.outsideResidual (front ++ text ++ back) = grammar.outsideResidual text := by
  obtain ⟨middle, blankMiddle, uncommented⟩ :=
    withoutLineComment_surrounded firm blankFront blankBack text
  obtain ⟨rest, blankRest, left⟩ := withoutBlocks_surrounded firm.openers firm.closers blankFront
    blankMiddle (grammar.withoutLineComment text)
  unfold outsideResidual
  rw [uncommented, left]
  simp only
  rw [trim_surrounded blankFront blankRest]

/-- Nothing is left of an empty text, and no comment is opened in it. -/
theorem outsideResidual_nil (firm : grammar.Firm) :
    grammar.outsideResidual [] = ⟨[], .outside⟩ := by
  have absent : ∀ token : Text, token.Firm → ¬ Occurs token [] := by
    rintro token tokenFirm ⟨before, after, whole⟩
    have parts := List.append_eq_nil_iff.mp whole.symm
    exact tokenFirm.nonempty (List.append_eq_nil_iff.mp parts.1).2
  have blocks : ∀ pairs : List BlockPair, (∀ pair ∈ pairs, pair.opener.Firm) →
      LosesBlocks pairs [] ⟨[], .outside⟩ := by
    intro pairs openers
    induction pairs with
    | nil => exact .done
    | cons pair others step =>
      exact .absent (absent _ (openers pair List.mem_cons_self))
        (step fun other inside => openers other (List.mem_cons_of_mem pair inside))
  exact loses_iff.mp (.steps
    (.whole fun token inside => absent token (firm.lineTokens token inside))
    (blocks _ firm.openers) (trimsTo_iff.mpr rfl))

/-- What is left of a line that begins outside of block comments does not depend on trimming it. -/
theorem residual_outside (firm : grammar.Firm) (line : Text) :
    grammar.residual .outside line = grammar.outsideResidual line := by
  have trimmed : TrimsTo line line.trim := trimsTo_iff.mpr rfl
  obtain ⟨front, back, whole, blankFront, blankBack⟩ := trimmed.surrounded
  have same : grammar.outsideResidual line = grammar.outsideResidual line.trim := by
    have around := outsideResidual_surrounded firm blankFront blankBack line.trim
    rwa [← whole] at around
  rw [same]
  unfold residual
  simp only
  split
  · next empty => rw [List.isEmpty_iff.mp empty, outsideResidual_nil firm]
  · rfl

end Surrounded

section Reachable

variable {grammar : Grammar}

/-- A block comment that trying the pairs leaves open ends at the closer of one of them. -/
theorem mem_closers_of_withoutBlocks {pairs : List BlockPair} {text closer : Text}
    (left : (withoutBlocks pairs text).context = .inside closer) :
    ∃ pair ∈ pairs, pair.closer = closer := by
  induction pairs generalizing text with
  | nil => cases left
  | cons pair others step =>
    have later : ∀ {rest : Text}, (withoutBlocks others rest).context = .inside closer →
        ∃ other ∈ pair :: others, other.closer = closer := by
      intro rest found
      obtain ⟨other, inside, same⟩ := step found
      exact ⟨other, List.mem_cons_of_mem pair inside, same⟩
    unfold withoutBlocks at left
    split at left
    · exact later left
    · split at left
      · exact later left
      · cases left
        exact ⟨pair, List.mem_cons_self, rfl⟩

/-- A block comment that a line leaves open was open before it with the same closer, or ends at the
closer of a declared pair. -/
theorem mem_closers_of_residual {context : Context} {line closer : Text}
    (left : (grammar.residual context line).context = .inside closer) :
    context = .inside closer ∨ ∃ pair ∈ grammar.blockPairs, pair.closer = closer := by
  unfold residual at left
  simp only at left
  split at left
  · exact .inl left
  · split at left
    · exact .inr (mem_closers_of_withoutBlocks left)
    · split at left
      · exact .inl left
      · exact .inr (mem_closers_of_withoutBlocks left)

/-- An open block comment ends at the closer of a declared pair. -/
theorem Reachable.mem_closers {context : Context} (reachable : grammar.Reachable context)
    {closer : Text} (inside : context = .inside closer) :
    ∃ pair ∈ grammar.blockPairs, pair.closer = closer := by
  induction reachable with
  | outside => cases inside
  | line _ line before => exact (mem_closers_of_residual inside).elim before id

end Reachable

section Inside

variable {grammar : Grammar} {closer : Text}

/-- The reading of a line is the first of a run, and the others begin in the context that it
leaves. -/
theorem Reads.readings {context : Context} {line : Text} {kind : LineKind} {left : Residual}
    (reads : grammar.Reads context line kind left) (rest : List Text) :
    grammar.readings context (line :: rest) =
      (kind, left) :: grammar.readings left.context rest := by
  obtain ⟨classified, residual⟩ := reads.sound
  rw [Grammar.readings, classified, residual]

/-- Every line leaves what is left of it and its context, and is classified by itself. -/
theorem readings_cons (grammar : Grammar) (context : Context) (line : Text) (rest : List Text) :
    grammar.readings context (line :: rest) =
      ((grammar.classify context line).1, grammar.residual context line) ::
        grammar.readings (grammar.residual context line).context rest := by
  obtain ⟨kind, left, reads⟩ := grammar.exists_reads context line
  rw [reads.readings, reads.sound.1, reads.sound.2]

/-- A line without the closer is all in the comment. -/
theorem reads_hidden (grammar : Grammar) {line : Text} (absent : ¬ Occurs closer line.trim) :
    grammar.Reads (.inside closer) line (hidden closer line).1 (hidden closer line).2 := by
  unfold hidden
  by_cases blank : line.isBlank
  · rw [if_pos blank]
    exact .blank (List.all_eq_true.mp blank)
  · rw [if_neg blank]
    exact .unclosed (fun all => blank (List.all_eq_true.mpr all)) (trimsTo_iff.mpr rfl) absent

/-- Lines without the closer are all in the comment, and the lines after them begin in it. -/
theorem readings_hidden (grammar : Grammar) {lines : List Text}
    (absent : ∀ line ∈ lines, ¬ Occurs closer line.trim) (rest : List Text) :
    grammar.readings (.inside closer) (lines ++ rest) =
      lines.map (hidden closer) ++ grammar.readings (.inside closer) rest := by
  induction lines with
  | nil => rfl
  | cons line lines step =>
    have first := reads_hidden grammar (absent line List.mem_cons_self)
    rw [List.cons_append, first.readings]
    exact congrArg _ (step fun other inside => absent other (List.mem_cons_of_mem line inside))

/-- A line with the closer is read like the text after the closer. -/
theorem reads_resumed (firm : grammar.Firm) (closerFirm : closer.Firm) {line before after : Text}
    (leftmost : Leftmost closer line.trim before after) :
    grammar.Reads (.inside closer) line (kindOfLeft (grammar.residual .outside after).text)
      (grammar.residual .outside after) := by
  have visible : ¬ ∀ char ∈ line, isBlankChar char := by
    intro blank
    have empty : line.trim = [] := List.isEmpty_iff.mp (isEmpty_trim_iff.mpr blank)
    have parts := List.append_eq_nil_iff.mp (leftmost.whole.symm.trans empty)
    exact closerFirm.nonempty (List.append_eq_nil_iff.mp parts.1).2
  rw [residual_outside firm]
  exact .closed visible (trimsTo_iff.mpr rfl) leftmost (loses_iff.mpr rfl)

/-- A line that ends with the closer closes the comment, and nothing is left of it. -/
theorem reads_ending (firm : grammar.Firm) (closerFirm : closer.Firm) {line before after : Text}
    (leftmost : Leftmost closer line.trim before after) :
    grammar.Reads (.inside closer) (before ++ closer) .comment ⟨[], .outside⟩ := by
  have core : TrimsTo (before ++ closer) (before ++ closer) := by
    refine ⟨⟨[], [], (List.append_nil _).symm, rfl, rfl⟩, ?_, ?_⟩
    · intro char first
      have once : TrimsTo line line.trim := trimsTo_iff.mpr rfl
      apply once.starts
      rw [leftmost.whole, List.head?_append, first]
      rfl
    · intro char last
      apply closerFirm.ends
      have final := List.getLast?_eq_some_getLast closerFirm.nonempty
      rw [List.getLast?_append, final, Option.some_or] at last
      rw [final, last]
  have whole : (before ++ closer).trim = before ++ closer := trimsTo_iff.mp core
  have reads := reads_resumed firm closerFirm (whole.symm ▸ leftmost.ending)
  rwa [residual_outside firm, outsideResidual_nil firm] at reads

/-- In a grammar of firm tokens every block comment that reading lines leaves open goes on up to its
closer, and the text after the closer is read like a line of its own. -/
theorem encloses_of_reachable (firm : grammar.Firm)
    (reachable : grammar.Reachable (.inside closer)) :
    grammar.Encloses closer := by
  have closerFirm : closer.Firm := by
    obtain ⟨pair, declared, rfl⟩ := reachable.mem_closers rfl
    exact firm.closers pair declared
  constructor
  case hides =>
    intro lines absent
    have read := readings_hidden grammar absent []
    rwa [List.append_nil, readings, List.append_nil] at read
  case resumes =>
    intro lines line before after rest absent leftmost
    have resumed := reads_resumed firm closerFirm leftmost
    refine ⟨resumed.sound.2, ?_⟩
    rw [readings_hidden grammar absent, resumed.readings]
  case breaks =>
    intro lines line before after rest absent leftmost
    have ending := reads_ending firm closerFirm leftmost
    have resumed := reads_resumed firm closerFirm leftmost
    rw [readings_hidden grammar absent, ending.readings, readings_cons, resumed.sound.2]

/-- A line of a comment with other tokens in it and a blank line are all in the comment. The line
after them closes it, and opens another one after blanks. -/
theorem encloses_slashes :
    slashes.Firm ∧ slashes.Reachable (.inside "*/".toList) ∧
      (∀ line ∈ ["x // y /*".toList, "  ".toList], ¬ Occurs "*/".toList (trim line)) ∧
      Leftmost "*/".toList (trim " a */  b /* c ".toList) "a ".toList "  b /* c".toList ∧
      slashes.readings (.inside "*/".toList)
          ["x // y /*".toList, "  ".toList, " a */  b /* c ".toList] =
        [(.comment, ⟨[], .inside "*/".toList⟩), (.blank, ⟨[], .inside "*/".toList⟩),
          (.code, ⟨"b".toList, .inside "*/".toList⟩)] := by
  have firm : slashes.Firm := ⟨by decide, by decide, by decide⟩
  have reachable : slashes.Reachable (.inside "*/".toList) := Reachable.outside.line "/* a".toList
  have absent : ∀ line ∈ ["x // y /*".toList, "  ".toList], ¬ Occurs "*/".toList (trim line) := by
    have uncut : ∀ line ∈ ["x // y /*".toList, "  ".toList],
        cut? (trim line) "*/".toList = none := by
      decide
    exact fun line inside => cut?_eq_none.mp (uncut line inside)
  have leftmost : Leftmost "*/".toList (trim " a */  b /* c ".toList) "a ".toList
      "  b /* c".toList := leftmost_iff.mpr (by decide)
  have resumed :=
    (encloses_of_reachable firm reachable).resumes _ _ _ _ [] absent leftmost
  exact ⟨firm, reachable, absent, leftmost, resumed.2.trans (by decide)⟩

end Inside

end Grammar

end LineCensus
