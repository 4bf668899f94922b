import LineCensus.Proofs.Line.Counting
import LineCensus.Proofs.Line.Resuming

/-!
# Blanks between and around lines

Blank lines are read over, and blanks around a line are not read. So lines are read like what is
left of them when each is trimmed and the empty ones are dropped (`Grammar.visibleReadings_eq`), and
two lists of lines of which the same is left are read alike from every context
(`Grammar.readAlike_of_visibleLines`). Such lists come from each other by putting blank lines
anywhere or taking them away, and by changing the blanks around lines
(`visibleLines_eq_iff_respaced`).

The tokens of the grammar do not matter for this, even where they hold blanks themselves: a line is
trimmed before any token is looked for.
-/
namespace LineCensus

open Text

/-- Lines trimmed, without those that are blank. -/
def visibleLines (lines : List Text) : List Text :=
  (lines.map trim).filter fun line => !line.isEmpty

/-- Two lists of lines differ in blank lines and in the blanks around lines only. -/
inductive Respaced : List Text → List Text → Prop where
  /-- There are no lines left. -/
  | nil : Respaced [] []
  /-- A blank line has been taken away. -/
  | without {line : Text} {lines others : List Text} (blank : line.isBlank)
    (rest : Respaced lines others) : Respaced (line :: lines) others
  /-- A blank line has been put in. -/
  | added {line : Text} {lines others : List Text} (blank : line.isBlank)
    (rest : Respaced lines others) : Respaced lines (line :: others)
  /-- The blanks around a line have been changed. -/
  | around {before before' after after' : Text} (line : Text) {lines others : List Text}
    (blank : before.isBlank ∧ after.isBlank) (blank' : before'.isBlank ∧ after'.isBlank)
    (rest : Respaced lines others) :
    Respaced ((before ++ line ++ after) :: lines) ((before' ++ line ++ after') :: others)

/-- Nothing is left of a blank line. -/
theorem visibleLines_cons_of_blank {line : Text} (blank : line.isBlank) (lines : List Text) :
    visibleLines (line :: lines) = visibleLines lines := by
  unfold visibleLines
  rw [List.map_cons, trim_eq_nil_iff.mpr blank]
  rfl

/-- Another line is left trimmed. -/
theorem visibleLines_cons_of_visible {line : Text} (visible : ¬ line.isBlank)
    (lines : List Text) : visibleLines (line :: lines) = line.trim :: visibleLines lines := by
  have nonempty : (!line.trim.isEmpty) = true := by
    rw [Bool.not_eq_true', ← Bool.not_eq_true, List.isEmpty_iff, trim_eq_nil_iff]
    exact visible
  unfold visibleLines
  rw [List.map_cons, List.filter_cons, if_pos nonempty]

/-- Every line is what is left of it by trimming, with blanks around. -/
theorem exists_blanks_around (line : Text) :
    ∃ before after : Text, line = before ++ line.trim ++ after ∧ before.isBlank ∧ after.isBlank :=
  (trimsTo_iff.mpr rfl : TrimsTo line line.trim).surrounded

/-- Of respaced lines the same is left. -/
theorem Respaced.visibleLines_eq {lines others : List Text} (respaced : Respaced lines others) :
    visibleLines lines = visibleLines others := by
  induction respaced with
  | nil => rfl
  | without blank _ step => rw [visibleLines_cons_of_blank blank, step]
  | added blank _ step => rw [visibleLines_cons_of_blank blank, step]
  | around line blank blank' _ step =>
    have same : ∀ (before after : Text) (lines : List Text), before.isBlank ∧ after.isBlank →
        visibleLines ((before ++ line ++ after) :: lines) = visibleLines (line :: lines) := by
      intro before after lines blanks
      unfold visibleLines
      rw [List.map_cons, List.map_cons, trim_surrounded blanks.1 blanks.2]
    rw [same _ _ _ blank, same _ _ _ blank']
    unfold visibleLines at step ⊢
    rw [List.map_cons, List.map_cons, List.filter_cons, List.filter_cons, step]

/-- Lines of which the same is left differ in blank lines and in the blanks around lines only. -/
theorem respaced_of_visibleLines_eq {lines others : List Text}
    (same : visibleLines lines = visibleLines others) : Respaced lines others := by
  induction lines generalizing others with
  | nil =>
    induction others with
    | nil => exact .nil
    | cons other others step =>
      by_cases blank : other.isBlank
      · rw [visibleLines_cons_of_blank blank] at same
        exact .added blank (step same)
      · rw [visibleLines_cons_of_visible blank] at same
        cases same
  | cons line lines stepLines =>
    by_cases blank : line.isBlank
    · rw [visibleLines_cons_of_blank blank] at same
      exact .without blank (stepLines same)
    · -- what is left of the line is left of the first line of the others that is not blank
      rw [visibleLines_cons_of_visible blank] at same
      induction others with
      | nil => cases same
      | cons other others step =>
        by_cases blank' : other.isBlank
        · rw [visibleLines_cons_of_blank blank'] at same
          exact .added blank' (step same)
        · rw [visibleLines_cons_of_visible blank'] at same
          obtain ⟨sameLine, sameLines⟩ := List.cons.inj same
          obtain ⟨before, after, whole, blanks⟩ := exists_blanks_around line
          obtain ⟨before', after', whole', blanks'⟩ := exists_blanks_around other
          rw [whole, whole', ← sameLine]
          exact .around line.trim blanks blanks' (stepLines sameLines)

/-- Lines are respaced exactly when the same is left of them. -/
theorem visibleLines_eq_iff_respaced {lines others : List Text} :
    visibleLines lines = visibleLines others ↔ Respaced lines others :=
  ⟨respaced_of_visibleLines_eq, Respaced.visibleLines_eq⟩

namespace Grammar

/-- The context that lines leave. -/
def contextAfter (grammar : Grammar) (context : Context) (lines : List Text) : Context :=
  lines.foldl (fun context line => (grammar.classify context line).2) context

/-- The readings of the lines that are not blank. -/
def visibleReadings (grammar : Grammar) (context : Context) (lines : List Text) :
    List (LineKind × Residual) :=
  (grammar.readings context lines).filter fun reading => reading.1 ≠ .blank

/-- Two lists of lines are read alike from a context, but for blank lines. -/
structure ReadAlike (grammar : Grammar) (context : Context) (lines others : List Text) : Prop where
  /-- The lines that are not blank are of the same kinds, the same is left of each, and each leaves
  the same context. -/
  readings_eq : grammar.visibleReadings context lines = grammar.visibleReadings context others
  /-- The last context is the same. -/
  context_eq : grammar.contextAfter context lines = grammar.contextAfter context others
  /-- Counting goes on with as many lines of code. -/
  code_eq : ∀ count : LineCount, (grammar.countFrom ⟨count, context⟩ lines).count.code =
    (grammar.countFrom ⟨count, context⟩ others).count.code
  /-- It goes on with as many lines of comments. -/
  comment_eq : ∀ count : LineCount, (grammar.countFrom ⟨count, context⟩ lines).count.comment =
    (grammar.countFrom ⟨count, context⟩ others).count.comment

variable (grammar : Grammar) (context : Context)

/-- A line is classified like what is left of it by trimming. -/
theorem classify_trim (line : Text) :
    grammar.classify context line.trim = grammar.classify context line := by
  unfold classify residual
  rw [trim_trim]

/-- Of a line there is left what is left of it when it is trimmed before. -/
theorem residual_trim (line : Text) :
    grammar.residual context line.trim = grammar.residual context line := by
  unfold residual
  rw [trim_trim]

/-- A blank line is read as such and leaves the context. -/
theorem classify_of_blank {line : Text} (blank : line.isBlank) :
    grammar.classify context line = (.blank, context) := by
  unfold classify
  rw [trim_eq_nil_iff.mpr blank]
  rfl

/-- Another line is code or a comment. -/
theorem classify_ne_blank {line : Text} (visible : ¬ line.isBlank) :
    (grammar.classify context line).1 ≠ .blank := by
  have nonempty : ¬ line.trim.isEmpty = true := by
    rwa [List.isEmpty_iff, trim_eq_nil_iff]
  unfold classify
  rw [if_neg nonempty]
  dsimp only
  split
  · exact LineKind.noConfusion
  · exact LineKind.noConfusion

/-- Lines are read like what is left of them, but for blank lines. -/
theorem visibleReadings_eq (lines : List Text) :
    grammar.visibleReadings context lines = grammar.readings context (visibleLines lines) := by
  unfold visibleReadings
  induction lines generalizing context with
  | nil => rfl
  | cons line lines step =>
    by_cases blank : line.isBlank
    · rw [visibleLines_cons_of_blank blank, readings, classify_of_blank grammar context blank,
        List.filter_cons_of_neg (by simp)]
      exact step context
    · have kept := decide_eq_true (grammar.classify_ne_blank context blank)
      rw [visibleLines_cons_of_visible blank, readings, readings, classify_trim, residual_trim,
        List.filter_cons, if_pos kept, step]

/-- Lines leave the context that what is left of them does. -/
theorem contextAfter_visibleLines (lines : List Text) :
    grammar.contextAfter context (visibleLines lines) = grammar.contextAfter context lines := by
  induction lines generalizing context with
  | nil => rfl
  | cons line lines step =>
    have first : grammar.contextAfter context (line :: lines) =
        grammar.contextAfter (grammar.classify context line).2 lines := rfl
    by_cases blank : line.isBlank
    · rw [visibleLines_cons_of_blank blank, first, classify_of_blank grammar context blank, step]
    · have trimmed : grammar.contextAfter context (line.trim :: visibleLines lines) =
          grammar.contextAfter (grammar.classify context line.trim).2 (visibleLines lines) := rfl
      rw [visibleLines_cons_of_visible blank, first, trimmed, classify_trim, step]

/-- The kinds of lines are those of their readings. -/
theorem kinds_eq_map_readings (lines : List Text) :
    grammar.kinds context lines = (grammar.readings context lines).map Prod.fst := by
  induction lines generalizing context with
  | nil => rfl
  | cons line lines step => exact congrArg _ (step _)

/-- The kinds other than blank are those of what is left of the lines. -/
theorem kinds_visibleLines (lines : List Text) :
    grammar.kinds context (visibleLines lines) =
      (grammar.kinds context lines).filter fun kind => kind ≠ .blank := by
  rw [kinds_eq_map_readings, ← visibleReadings_eq, kinds_eq_map_readings, List.filter_map]
  rfl

/-- A kind other than blank occurs as often in what is left of the lines. -/
theorem count_kinds_visibleLines {kind : LineKind} (visible : kind ≠ .blank) (lines : List Text) :
    (grammar.kinds context (visibleLines lines)).count kind =
      (grammar.kinds context lines).count kind := by
  have kept : (fun kind : LineKind => decide (kind ≠ .blank)) kind = true := decide_eq_true visible
  rw [kinds_visibleLines]
  exact List.count_filter kept

/-- A line is blank or it is left. -/
theorem count_kinds_blank (lines : List Text) :
    (grammar.kinds context lines).count .blank + (visibleLines lines).length = lines.length := by
  induction lines generalizing context with
  | nil => rfl
  | cons line lines step =>
    by_cases blank : line.isBlank
    · have others := step context
      rw [visibleLines_cons_of_blank blank, kinds, classify_of_blank grammar context blank,
        List.count_cons_self, List.length_cons]
      dsimp only
      omega
    · have others := step (grammar.classify context line).2
      have differ := grammar.classify_ne_blank context blank
      rw [visibleLines_cons_of_visible blank, kinds, List.count_cons_of_ne differ,
        List.length_cons, List.length_cons]
      omega

/-- Lines are read alike where the same is left of them. -/
theorem readAlike_of_eq {lines others : List Text} (same : visibleLines lines = visibleLines others) :
    grammar.ReadAlike context lines others := by
  have counted : ∀ kind : LineKind, kind ≠ .blank →
      (grammar.kinds context lines).count kind = (grammar.kinds context others).count kind := by
    intro kind visible
    rw [← count_kinds_visibleLines grammar context visible, same,
      count_kinds_visibleLines grammar context visible]
  constructor
  case readings_eq => rw [visibleReadings_eq, visibleReadings_eq, same]
  case context_eq => rw [← contextAfter_visibleLines, same, contextAfter_visibleLines]
  case code_eq =>
    intro count
    rw [count_countFrom_add, count_countFrom_add, counted .code LineKind.noConfusion]
  case comment_eq =>
    intro count
    rw [count_countFrom_add, count_countFrom_add, counted .comment LineKind.noConfusion]

/-- Lines of which the same is left are read alike from every context, and as many lines are blank as
are dropped. So lines are read alike whichever blank lines are put in or taken away and whatever
blanks around lines are changed. -/
theorem readAlike_of_visibleLines {lines others : List Text}
    (same : visibleLines lines = visibleLines others) :
    grammar.ReadAlike context lines others ∧
    (∀ (count : LineCount) (lines : List Text),
      (grammar.countFrom ⟨count, context⟩ lines).count.blank + (visibleLines lines).length =
        count.blank + lines.length) ∧
    ∀ lines others : List Text, Respaced lines others → grammar.ReadAlike context lines others := by
  refine ⟨readAlike_of_eq grammar context same, ?_, ?_⟩
  · intro count lines
    have kinds := grammar.count_kinds_blank context lines
    rw [count_countFrom_add]
    dsimp only
    omega
  · exact fun lines others respaced => readAlike_of_eq grammar context respaced.visibleLines_eq

/-- A grammar in which every token has a blank. -/
def blankInTokens : Grammar := ofTokens ["- -"] [("/ *", "* /")]

/-- Lines with a block comment, and blank lines and carriage returns in it. -/
def spacedLines : List Text :=
  ["\tx / * y\r".toList, "  ".toList, "z - -\r".toList, [], "* / w  ".toList]

/-- The same lines without the blanks between and around them. -/
def plainLines : List Text := ["x / * y".toList, "z - -".toList, "* / w".toList]

/-- These lines are read alike where they begin outside of a comment, though blank lines stand in
the block comment and all tokens have blanks. -/
theorem readAlike_of_visibleLines_blankInTokens :
    visibleLines spacedLines = visibleLines plainLines ∧
      blankInTokens.visibleReadings .outside plainLines =
        [(.code, ⟨"x".toList, .inside "* /".toList⟩), (.comment, ⟨[], .inside "* /".toList⟩),
          (.code, ⟨"w".toList, .outside⟩)] ∧
      blankInTokens.ReadAlike .outside spacedLines plainLines := by
  have same : visibleLines spacedLines = visibleLines plainLines := by decide
  exact ⟨same, by decide, (readAlike_of_visibleLines blankInTokens .outside same).1⟩

end Grammar

end LineCensus
