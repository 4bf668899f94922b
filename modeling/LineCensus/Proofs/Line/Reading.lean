import LineCensus.Line.Basic
import LineCensus.Proofs.Text.Leftmost
import LineCensus.Proofs.Text.Trim

/-!
# What a line means

The reading of a line is told without a search: by the texts around leftmost occurrences and the
tokens that do not occur. A line has exactly one reading, and it is what the line is classified
as, what is left of it and the context that it leaves (`Grammar.reads_iff`).

The relations follow the steps of the reading. Each has one law that says which operation finds
the text that it determines.
-/
namespace LineCensus

open Text

namespace Grammar

/-- A text loses what comes after a line token. Of the declared tokens, the earliest that occurs
counts, and of that token the leftmost occurrence. -/
inductive LosesLineComment (tokens : List Text) (text : Text) : Text → Prop where
  /-- No token occurs. -/
  | whole (absent : ∀ token ∈ tokens, ¬ Occurs token text) : LosesLineComment tokens text text
  /-- A token occurs, and none that is declared before it. -/
  | cut {earlier later : List Text} {token before after : Text}
      (declared : tokens = earlier ++ token :: later)
      (absent : ∀ other ∈ earlier, ¬ Occurs other text)
      (leftmost : Leftmost token text before after) : LosesLineComment tokens text before

/-- A text loses the block comments that the pairs find, each pair taken once and in order. -/
inductive LosesBlocks : List BlockPair → Text → Residual → Prop where
  /-- All pairs are taken, and no comment is open. -/
  | done {text : Text} : LosesBlocks [] text ⟨text, .outside⟩
  /-- The opener does not occur. -/
  | absent {pair : BlockPair} {others : List BlockPair} {text : Text} {left : Residual}
      (absent : ¬ Occurs pair.opener text) (rest : LosesBlocks others text left) :
      LosesBlocks (pair :: others) text left
  /-- The closer occurs after the leftmost opener, and the text around the comment is joined. -/
  | closed {pair : BlockPair} {others : List BlockPair} {text before inner body after : Text}
      {left : Residual} (opened : Leftmost pair.opener text before inner)
      (closed : Leftmost pair.closer inner body after)
      (rest : LosesBlocks others (before ++ after) left) : LosesBlocks (pair :: others) text left
  /-- The closer does not occur after the leftmost opener, and no other pair is taken. -/
  | opened {pair : BlockPair} {others : List BlockPair} {text before inner : Text}
      (opened : Leftmost pair.opener text before inner)
      (unclosed : ¬ Occurs pair.closer inner) :
      LosesBlocks (pair :: others) text ⟨before, .inside pair.closer⟩

/-- A text outside of block comments loses its line comment, then its block comments, and then
the blanks around what is left. -/
inductive Loses (grammar : Grammar) (text : Text) : Residual → Prop where
  /-- The three steps, one after the other. -/
  | steps {uncommented core : Text} {left : Residual}
      (lineComment : LosesLineComment grammar.lineTokens text uncommented)
      (blocks : LosesBlocks grammar.blockPairs uncommented left)
      (trimmed : TrimsTo left.text core) : Loses grammar text ⟨core, left.context⟩

/-- The kind of a line that is not blank, from what is left of it. -/
def kindOfLeft (left : Text) : LineKind := if left = [] then .comment else .code

/-- A line that begins in a context is of a kind, and something is left of it with a context. -/
inductive Reads (grammar : Grammar) : Context → Text → LineKind → Residual → Prop where
  /-- All characters are blank. -/
  | blank {context : Context} {line : Text}
      (blank : ∀ char ∈ line, isBlankChar char) : Reads grammar context line .blank ⟨[], context⟩
  /-- The line is in a block comment, and the closer does not occur. -/
  | unclosed {closer line core : Text} (visible : ¬ ∀ char ∈ line, isBlankChar char)
      (trimmed : TrimsTo line core) (absent : ¬ Occurs closer core) :
      Reads grammar (.inside closer) line .comment ⟨[], .inside closer⟩
  /-- The line is in a block comment up to the leftmost closer. -/
  | closed {closer line core body after : Text} {left : Residual}
      (visible : ¬ ∀ char ∈ line, isBlankChar char) (trimmed : TrimsTo line core)
      (leftmost : Leftmost closer core body after) (rest : grammar.Loses after left) :
      Reads grammar (.inside closer) line (kindOfLeft left.text) left
  /-- The line is not in a block comment. -/
  | outside {line core : Text} {left : Residual}
      (visible : ¬ ∀ char ∈ line, isBlankChar char) (trimmed : TrimsTo line core)
      (rest : grammar.Loses core left) : Reads grammar .outside line (kindOfLeft left.text) left

/-- A text without its line comment is what the cut at a line token leaves. -/
theorem losesLineComment_iff {grammar : Grammar} {text left : Text} :
    LosesLineComment grammar.lineTokens text left ↔ grammar.withoutLineComment text = left := by
  unfold withoutLineComment
  constructor
  · rintro (absent | ⟨declared, absent, leftmost⟩)
    · have nowhere : (grammar.lineTokens.findSome? fun token => text.cut? token) = none :=
        List.findSome?_eq_none_iff.mpr fun token inside => cut?_eq_none.mpr (absent token inside)
      rw [nowhere]
    · have found := List.findSome?_eq_some_iff.mpr ⟨_, _, _, declared, leftmost_iff.mp leftmost,
        fun other inside => cut?_eq_none.mpr (absent other inside)⟩
      rw [found]
  · rintro rfl
    rcases found : grammar.lineTokens.findSome? fun token => text.cut? token with _ | cut
    · exact .whole fun token inside =>
        cut?_eq_none.mp (List.findSome?_eq_none_iff.mp found token inside)
    · obtain ⟨earlier, token, later, declared, here, absent⟩ := List.findSome?_eq_some_iff.mp found
      exact .cut declared (fun other inside => cut?_eq_none.mp (absent other inside))
        (leftmost_of_cut? here)

/-- A text without its block comments is what trying the pairs in order leaves. -/
theorem losesBlocks_iff {pairs : List BlockPair} {text : Text} {left : Residual} :
    LosesBlocks pairs text left ↔ withoutBlocks pairs text = left := by
  constructor
  · intro loses
    induction loses with
    | done => rfl
    | absent absent _ step =>
      unfold withoutBlocks
      rw [cut?_eq_none.mpr absent]
      exact step
    | closed opened closed _ step =>
      unfold withoutBlocks
      rw [leftmost_iff.mp opened]
      simp only
      rw [leftmost_iff.mp closed]
      exact step
    | opened opened unclosed =>
      unfold withoutBlocks
      rw [leftmost_iff.mp opened]
      simp only
      rw [cut?_eq_none.mpr unclosed]
  · rintro rfl
    induction pairs generalizing text with
    | nil => exact .done
    | cons pair others step =>
      unfold withoutBlocks
      rcases start : text.cut? pair.opener with _ | opened
      · exact .absent (cut?_eq_none.mp start) step
      · simp only
        rcases stop : opened.after.cut? pair.closer with _ | closed
        · exact .opened (leftmost_of_cut? start) (cut?_eq_none.mp stop)
        · exact .closed (leftmost_of_cut? start) (leftmost_of_cut? stop) step

/-- A text without its comments is its residual outside of block comments. -/
theorem loses_iff {grammar : Grammar} {text : Text} {left : Residual} :
    grammar.Loses text left ↔ grammar.outsideResidual text = left := by
  unfold outsideResidual
  constructor
  · rintro ⟨lineComment, blocks, trimmed⟩
    rw [losesLineComment_iff.mp lineComment, losesBlocks_iff.mp blocks]
    simp only
    rw [trimsTo_iff.mp trimmed]
  · rintro rfl
    exact .steps (losesLineComment_iff.mpr rfl) (losesBlocks_iff.mpr rfl) (trimsTo_iff.mpr rfl)

/-- A line has only blanks exactly when trimming leaves nothing of it. -/
theorem isEmpty_trim_iff {line : Text} :
    line.trim.isEmpty = true ↔ ∀ char ∈ line, isBlankChar char := by
  rw [List.isEmpty_iff, trim_eq_nil_iff]
  exact List.all_eq_true

/-- The residual outside of block comments has no blanks around it. -/
theorem trim_outsideResidual (grammar : Grammar) (text : Text) :
    (grammar.outsideResidual text).text.trim = (grammar.outsideResidual text).text := trim_trim _

/-- The residual of a line has no blanks around it. -/
theorem trim_residual (grammar : Grammar) (context : Context) (line : Text) :
    (grammar.residual context line).text.trim = (grammar.residual context line).text := by
  unfold residual
  simp only
  split
  · rfl
  · split
    · exact trim_outsideResidual _ _
    · split
      · rfl
      · exact trim_outsideResidual _ _

/-- A line that is not blank is classified by its residual. -/
theorem classify_of_visible (grammar : Grammar) (context : Context) {line : Text}
    (visible : ¬ ∀ char ∈ line, isBlankChar char) :
    grammar.classify context line =
      (kindOfLeft (grammar.residual context line).text, (grammar.residual context line).context) := by
  have seen : ¬ line.trim.isEmpty = true := fun empty => visible (isEmpty_trim_iff.mp empty)
  unfold classify kindOfLeft
  rw [if_neg seen]
  simp only [trim_residual, List.isEmpty_iff]

/-- The residual of a line that is not blank is found in what it is trimmed to. -/
theorem residual_of_visible (grammar : Grammar) (context : Context) {line core : Text}
    (visible : ¬ ∀ char ∈ line, isBlankChar char) (trimmed : TrimsTo line core) :
    grammar.residual context line =
      match context with
      | .outside => grammar.outsideResidual core
      | .inside closer =>
        match core.cut? closer with
        | none => ⟨[], .inside closer⟩
        | some cut => grammar.outsideResidual cut.after := by
  have seen : ¬ line.trim.isEmpty = true := fun empty => visible (isEmpty_trim_iff.mp empty)
  unfold residual
  simp only
  rw [if_neg seen, trimsTo_iff.mp trimmed]
  cases context with
  | outside => rfl
  | inside closer => rfl

/-- What a reading says of a line is what the line is classified as and what is left of it. -/
theorem Reads.sound {grammar : Grammar} {context : Context} {line : Text} {kind : LineKind}
    {left : Residual} (reads : grammar.Reads context line kind left) :
    grammar.classify context line = (kind, left.context) ∧ grammar.residual context line = left := by
  -- for a line that is not blank, the residual decides the rest
  have fromResidual : (¬ ∀ char ∈ line, isBlankChar char) →
      grammar.residual context line = left → kind = kindOfLeft left.text →
      grammar.classify context line = (kind, left.context) ∧
        grammar.residual context line = left := by
    rintro visible rfl rfl
    exact ⟨classify_of_visible grammar context visible, rfl⟩
  cases reads with
  | blank blank =>
    have empty := isEmpty_trim_iff.mpr blank
    unfold classify residual
    rw [if_pos empty]
    exact ⟨rfl, if_pos empty⟩
  | unclosed visible trimmed absent =>
    refine fromResidual visible ?_ rfl
    rw [residual_of_visible grammar _ visible trimmed]
    simp only
    rw [cut?_eq_none.mpr absent]
  | closed visible trimmed leftmost rest =>
    refine fromResidual visible ?_ rfl
    rw [residual_of_visible grammar _ visible trimmed]
    simp only
    rw [leftmost_iff.mp leftmost]
    exact loses_iff.mp rest
  | outside visible trimmed rest =>
    refine fromResidual visible ?_ rfl
    rw [residual_of_visible grammar _ visible trimmed]
    exact loses_iff.mp rest

/-- Every line has a reading in every context. -/
theorem exists_reads (grammar : Grammar) (context : Context) (line : Text) :
    ∃ kind left, grammar.Reads context line kind left := by
  by_cases blank : ∀ char ∈ line, isBlankChar char
  · exact ⟨_, _, .blank blank⟩
  · have trimmed : TrimsTo line line.trim := trimsTo_iff.mpr rfl
    cases context with
    | outside => exact ⟨_, _, .outside blank trimmed (loses_iff.mpr rfl)⟩
    | inside closer =>
      rcases found : line.trim.cut? closer with _ | cut
      · exact ⟨_, _, .unclosed blank trimmed (cut?_eq_none.mp found)⟩
      · exact ⟨_, _, .closed blank trimmed (leftmost_of_cut? found) (loses_iff.mpr rfl)⟩

/-- The reading of a line is what the line is classified as, what is left of it, and the context
that both give for the next line. -/
theorem reads_iff (grammar : Grammar) (context : Context) (line : Text) (kind : LineKind)
    (left : Residual) :
    grammar.Reads context line kind left ↔
      grammar.classify context line = (kind, left.context) ∧
        grammar.residual context line = left := by
  constructor
  · exact Reads.sound
  · rintro ⟨classified, rfl⟩
    obtain ⟨kind', left', reads⟩ := grammar.exists_reads context line
    have found := reads.sound
    rw [classified] at found
    have sameKind : kind = kind' := (Prod.mk.inj found.1).1
    rw [sameKind, found.2]
    exact reads

-- an opener and a closer do not share a character
example : slashes.classify .outside "/*/ x".toList = (.comment, .inside "*/".toList) := by decide

end Grammar

end LineCensus
