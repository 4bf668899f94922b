import LineCensus.Proofs.Line.Resuming
import LineCensus.Registry.Standard

/-!
# Where openers come from

The block pairs of a grammar are tried one after another, each on the text that the pairs before it
have left. In this text closed comments are taken out and the text around them is joined, so the
opener of a later pair can be found in it that the line does not contain. Then the opener is put
together at the place of a comment of an earlier pair: its front ends the text before the comment,
and the rest of it begins the text after the comment (`Grammar.PutTogether`).

There is no other way. A line that opens a block comment contains the opener of it, or an earlier
pair has a comment in the line at whose place the opener is put together
(`Grammar.exists_opensWith_of_opens`). Where no earlier pair has its opener in the line, the line
contains the opener.
-/
namespace LineCensus

namespace Text

variable {token before after : Text}

/-- What occurs in a part of a text occurs in the text. -/
theorem Occurs.trans {part text : Text} (inner : Occurs token part) (outer : Occurs part text) :
    Occurs token text := by
  obtain ⟨front, back, rfl⟩ := inner
  obtain ⟨before, after, rfl⟩ := outer
  exact ⟨before ++ front, back ++ after, by simp⟩

/-- A token spans the place where two texts are joined: a front of it ends the first, and the rest
begins the second. -/
def Spans (token before after : Text) : Prop :=
  ∃ front rest, front ≠ [] ∧ rest ≠ [] ∧ token = front ++ rest ∧ front <:+ before ∧ rest <+: after

/-- A token that occurs in two texts joined occurs in one of them, or spans the place where they are
joined. -/
theorem Occurs.of_append (occurs : Occurs token (before ++ after)) :
    Occurs token before ∨ Occurs token after ∨ Spans token before after := by
  obtain ⟨front, back, whole⟩ := occurs
  rw [List.append_assoc] at whole
  rcases List.append_eq_append_iff.mp whole with ⟨rest, same, later⟩ | ⟨shared, same, later⟩
  · -- the token begins in the second text
    exact .inr (.inl ⟨rest, back, by rw [later, List.append_assoc]⟩)
  · rcases List.append_eq_append_iff.mp later with ⟨rest, inside, _⟩ | ⟨rest, parts, beyond⟩
    · -- the token ends in the first text
      exact .inl ⟨front, rest, by rw [same, inside, List.append_assoc]⟩
    · rcases eq_or_ne shared [] with rfl | started
      · exact .inr (.inl ⟨[], back, by simpa [parts] using beyond⟩)
      · rcases eq_or_ne rest [] with rfl | unended
        · exact .inl ⟨front, [], by simpa [parts] using same⟩
        · exact .inr (.inr ⟨shared, rest, started, unended, parts, ⟨front, same.symm⟩,
            ⟨back, beyond.symm⟩⟩)

end Text

namespace Grammar

open Text

/-- A line opens a block comment that ends at a closer. If it begins in a block comment, it closes
that one before. -/
structure Opens (grammar : Grammar) (context : Context) (line closer : Text) : Prop where
  /-- The comment is open after the line. -/
  leaves : (grammar.residual context line).context = .inside closer
  /-- A comment that is open before the line is closed in it. -/
  closes : ∀ old, context = .inside old → ¬ line.isBlank ∧ Occurs old line.trim

/-- Trying pairs on a text takes out a closed comment at whose place a token is put together. -/
inductive PutTogether (token : Text) : List BlockPair → Text → Prop where
  /-- The first pair has this comment. -/
  | here {pair : BlockPair} {others : List BlockPair} {text before inner body after : Text}
      (opened : Leftmost pair.opener text before inner)
      (closed : Leftmost pair.closer inner body after) (spans : Spans token before after) :
      PutTogether token (pair :: others) text
  /-- A later pair has it, and the first pair has no comment. -/
  | absent {pair : BlockPair} {others : List BlockPair} {text : Text}
      (absent : ¬ Occurs pair.opener text) (later : PutTogether token others text) :
      PutTogether token (pair :: others) text
  /-- A later pair has it, and the first pair has another closed comment. -/
  | closed {pair : BlockPair} {others : List BlockPair} {text before inner body after : Text}
      (opened : Leftmost pair.opener text before inner)
      (closed : Leftmost pair.closer inner body after)
      (later : PutTogether token others (before ++ after)) : PutTogether token (pair :: others) text

/-- A pair opens a block comment in a part of a line on which the earlier pairs are tried before. -/
structure OpensWith (line part : Text) (earlier : List BlockPair) (pair : BlockPair) : Prop where
  /-- The part is one of the line. -/
  inside : Occurs part line
  /-- No comment of an earlier pair is left open, and in the text that they leave the opener of the
  pair occurs without its closer after it. -/
  found : ∃ left before inner, LosesBlocks earlier part ⟨left, .outside⟩ ∧
    Leftmost pair.opener left before inner ∧ ¬ Occurs pair.closer inner
  /-- The line contains the opener, or it is put together at the place of a comment. -/
  source : Occurs pair.opener line ∨ PutTogether pair.opener earlier part
  /-- It is only put together when the line contains the opener of an earlier pair. -/
  contained : (∀ other ∈ earlier, ¬ Occurs other.opener line) → Occurs pair.opener line

section Origin

variable {grammar : Grammar} {pairs : List BlockPair} {text closer : Text}

/-- A text without its line comment is a part of it. -/
theorem occurs_withoutLineComment (grammar : Grammar) (text : Text) :
    Occurs (grammar.withoutLineComment text) text := by
  have loses : LosesLineComment grammar.lineTokens text (grammar.withoutLineComment text) :=
    losesLineComment_iff.mpr rfl
  generalize grammar.withoutLineComment text = left at loses
  rcases loses with absent | ⟨_, _, leftmost⟩
  · exact ⟨[], [], by simp⟩
  · exact ⟨[], _, leftmost.whole.trans (List.append_assoc _ _ _)⟩

/-- A line that opens a block comment has a part in which trying the pairs leaves it open. -/
theorem Opens.exists_part {context : Context} {line : Text}
    (opens : grammar.Opens context line closer) : ∃ part, Occurs part line ∧
      (withoutBlocks grammar.blockPairs part).context = .inside closer := by
  have core : Occurs line.trim line := by
    have trimmed : TrimsTo line line.trim := trimsTo_iff.mpr rfl
    obtain ⟨front, back, whole, _⟩ := trimmed.surrounded
    exact ⟨front, back, whole⟩
  have leaves := opens.leaves
  by_cases blank : ∀ char ∈ line, isBlankChar char
  · -- a blank line leaves the context as it is
    have reads : grammar.Reads context line .blank ⟨[], context⟩ := .blank blank
    rw [reads.sound.2] at leaves
    exact absurd (List.all_eq_true.mpr blank) (opens.closes closer leaves).1
  · rw [residual_of_visible grammar context blank (trimsTo_iff.mpr rfl)] at leaves
    cases context with
    | outside => exact ⟨_, (grammar.occurs_withoutLineComment _).trans core, leaves⟩
    | inside old =>
      rcases found : line.trim.cut? old with _ | cut
      · exact absurd (opens.closes old rfl).2 (cut?_eq_none.mp found)
      · simp only [found] at leaves
        have after : Occurs cut.after line.trim :=
          ⟨cut.before ++ old, [], by simpa using eq_of_cut? found⟩
        exact ⟨_, (grammar.occurs_withoutLineComment _).trans (after.trans core), leaves⟩

/-- An open comment is one of a pair that finds its opener in what the pairs before it leave. -/
theorem LosesBlocks.exists_opener {left : Residual} (loses : LosesBlocks pairs text left)
    (isOpen : left.context = .inside closer) :
    ∃ earlier pair later rest before inner, pairs = earlier ++ pair :: later ∧
      pair.closer = closer ∧ LosesBlocks earlier text ⟨rest, .outside⟩ ∧
      Leftmost pair.opener rest before inner ∧ ¬ Occurs pair.closer inner := by
  induction loses with
  | done => cases isOpen
  | absent absent _ step =>
    obtain ⟨earlier, pair, later, rest, before, inner, rfl, same, losesRest, found⟩ := step isOpen
    exact ⟨_ :: earlier, pair, later, rest, before, inner, rfl, same, .absent absent losesRest,
      found⟩
  | closed opened closed _ step =>
    obtain ⟨earlier, pair, later, rest, before, inner, rfl, same, losesRest, found⟩ := step isOpen
    exact ⟨_ :: earlier, pair, later, rest, before, inner, rfl, same,
      .closed opened closed losesRest, found⟩
  | @opened pair others _ before inner opened unclosed =>
    cases isOpen
    exact ⟨[], pair, others, _, before, inner, rfl, rfl, .done, opened, unclosed⟩

/-- A token that occurs where pairs have taken out their comments occurred before, or was put
together at the place of one of them. -/
theorem LosesBlocks.occurs_or_putTogether {left : Residual} {token : Text}
    (loses : LosesBlocks pairs text left) (closed : left.context = .outside)
    (occurs : Occurs token left.text) : Occurs token text ∨ PutTogether token pairs text := by
  induction loses with
  | done => exact .inl occurs
  | absent absent _ step => exact (step closed occurs).imp_right (.absent absent)
  | @closed pair _ text before inner body after _ opened stops _ step =>
    rcases step closed occurs with joined | later
    · have whole : text = before ++ pair.opener ++ (body ++ pair.closer ++ after) :=
        stops.whole ▸ opened.whole
      rcases joined.of_append with front | back | spans
      · exact .inl (front.trans ⟨[], pair.opener ++ (body ++ pair.closer ++ after), by simp [whole]⟩)
      · exact .inl (back.trans ⟨before ++ pair.opener ++ (body ++ pair.closer), [], by simp [whole]⟩)
      · exact .inr (.here opened stops spans)
    · exact .inr (.closed opened stops later)
  | opened => cases closed

/-- Pairs whose openers do not occur leave a text as it is. -/
theorem LosesBlocks.eq_of_absent {left : Residual} (loses : LosesBlocks pairs text left)
    (absent : ∀ pair ∈ pairs, ¬ Occurs pair.opener text) : left = ⟨text, .outside⟩ := by
  induction loses with
  | done => rfl
  | absent _ _ step => exact step fun pair inside => absent pair (List.mem_cons_of_mem _ inside)
  | closed opened => exact absurd opened.occurs (absent _ List.mem_cons_self)
  | opened opened => exact absurd opened.occurs (absent _ List.mem_cons_self)

end Origin

/-- A block comment that a line opens is one of a declared pair with its closer. The line contains
the opener of the pair, or the opener is put together at the place of a closed comment of a pair
declared before, and only when the line contains the opener of such a pair. -/
theorem exists_opensWith_of_opens {grammar : Grammar} {context : Context} {line closer : Text}
    (opens : grammar.Opens context line closer) :
    ∃ part earlier pair later, grammar.blockPairs = earlier ++ pair :: later ∧
      pair.closer = closer ∧ OpensWith line part earlier pair := by
  obtain ⟨part, inside, isOpen⟩ := opens.exists_part
  have tried : LosesBlocks grammar.blockPairs part (withoutBlocks grammar.blockPairs part) :=
    losesBlocks_iff.mpr rfl
  obtain ⟨earlier, pair, later, left, before, inner, declared, same, loses, opened, unclosed⟩ :=
    tried.exists_opener isOpen
  have source : Occurs pair.opener line ∨ PutTogether pair.opener earlier part :=
    (loses.occurs_or_putTogether rfl opened.occurs).imp_left fun occurs => occurs.trans inside
  refine ⟨part, earlier, pair, later, declared, same, inside,
    ⟨left, before, inner, loses, opened, unclosed⟩, source, fun absent => ?_⟩
  have untouched := loses.eq_of_absent fun other among occurs =>
    absent other among (occurs.trans inside)
  cases untouched
  exact opened.occurs.trans inside

/-- Three quotes of either kind around a block comment. -/
def tripleQuotes : Grammar :=
  ofTokens ["#"] [("\x22\x22\x22", "\x22\x22\x22"), ("\x27\x27\x27", "\x27\x27\x27")]

/-- A line with a comment in double quotes between two single quotes and one. -/
def quotedBetween : Text := "\x27\x27\x22\x22\x22x\x22\x22\x22\x27".toList

/-- That line opens a comment in single quotes. -/
theorem opens_quotedBetween :
    tripleQuotes.Opens .outside quotedBetween "\x27\x27\x27".toList :=
  ⟨by decide, nofun⟩

/-- The opener of this comment is put together at the place of the other one. -/
theorem exists_opensWith_quotedBetween :
    tripleQuotes.Opens .outside quotedBetween "\x27\x27\x27".toList ∧
      ∃ part earlier pair later, tripleQuotes.blockPairs = earlier ++ pair :: later ∧
        pair.closer = "\x27\x27\x27".toList ∧ OpensWith quotedBetween part earlier pair :=
  ⟨opens_quotedBetween, exists_opensWith_of_opens opens_quotedBetween⟩

/-- No declared pair with its closer has an opener that the line contains. -/
theorem opener_not_in_quotedBetween :
    Registry.standard.resolve? "a.py".toList = some (Language.ofTag tripleQuotes "py") ∧
      tripleQuotes.Reachable .outside ∧
      tripleQuotes.Opens .outside quotedBetween "\x27\x27\x27".toList ∧
      ∀ pair ∈ tripleQuotes.blockPairs, pair.closer = "\x27\x27\x27".toList →
        ¬ Occurs pair.opener quotedBetween := by
  have uncut : ∀ pair ∈ tripleQuotes.blockPairs, pair.closer = "\x27\x27\x27".toList →
      quotedBetween.cut? pair.opener = none := by
    decide
  exact ⟨by decide +kernel, .outside, opens_quotedBetween, fun pair declared same =>
    cut?_eq_none.mp (uncut pair declared same)⟩

end Grammar

end LineCensus
