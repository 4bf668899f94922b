import LineCensus.Proofs.Line.Openers
import LineCensus.Proofs.Line.Counting

/-!
# Block pairs behind a line token

A line token is tried before any block pair, and it cuts the line. What is left of the line does not
contain the first line token any more, whichever token cut it
(`Grammar.LosesLineComment.absent_first`). So no block comment opens in a grammar where the first
line token stands in every opener: the block pairs could be left out, and every line would be read
the same from the outside on (`Grammar.pairsInert_of_shadowedBy`). In the standard registry this is
so for the languages tagged lua and ml.
-/
namespace LineCensus

open Text

/-- A token that is not empty does not occur before its leftmost occurrence. -/
theorem Text.Leftmost.absent_before {token text before after : Text}
    (leftmost : Leftmost token text before after) (nonempty : token ≠ []) :
    ¬ Occurs token before := by
  rintro ⟨front, back, rfl⟩
  have shorter := leftmost.least front (back ++ token ++ after) (by simp [leftmost.whole])
  have positive := List.length_pos_of_ne_nil nonempty
  simp only [List.length_append] at shorter
  omega

namespace Grammar

/-- A token is the first line token of a grammar, and every opener contains it. -/
structure ShadowedBy (grammar : Grammar) (token : Text) : Prop where
  /-- It is tried before the other line tokens. -/
  first : grammar.lineTokens.head? = some token
  /-- It is not empty. -/
  nonempty : token ≠ []
  /-- It stands in every opener. -/
  inOpeners : ∀ pair ∈ grammar.blockPairs, Occurs token pair.opener

/-- A grammar without its block pairs. -/
def withoutPairs (grammar : Grammar) : Grammar := { grammar with blockPairs := [] }

/-- The block pairs of a grammar do nothing, where no line has been read before. -/
structure PairsInert (grammar : Grammar) : Prop where
  /-- Reading lines never leads into a block comment. -/
  reachable : ∀ context, grammar.Reachable context → context = .outside
  /-- After each line of a run no block comment is open. -/
  contexts : ∀ lines, ∀ reading ∈ grammar.readings .outside lines, reading.2.context = .outside
  /-- Each line is of the kind that it is of without the pairs, and the same is left of it. -/
  readings_eq : ∀ lines,
    grammar.readings .outside lines = grammar.withoutPairs.readings .outside lines
  /-- Lines are counted as without the pairs. -/
  countFrom_eq : ∀ lines, grammar.countFrom {} lines = grammar.withoutPairs.countFrom {} lines
  /-- So are texts. -/
  countText_eq : ∀ text, grammar.countText text = grammar.withoutPairs.countText text
  /-- So are the bytes of files. -/
  countBytes_eq : ∀ bytes, grammar.countBytes bytes = grammar.withoutPairs.countBytes bytes

/-- What is left of a text without its line comment does not contain the first line token, whichever
token begins the comment. -/
theorem LosesLineComment.absent_first {tokens : List Text} {text left token : Text}
    (loses : LosesLineComment tokens text left) (first : tokens.head? = some token)
    (nonempty : token ≠ []) : ¬ Occurs token left := by
  cases loses with
  | whole absent => exact absent token (List.mem_of_head? first)
  | @cut earlier later other _ after declared absent leftmost =>
    cases earlier with
    | nil =>
      rw [declared] at first
      obtain rfl : other = token := Option.some.inj first
      exact leftmost.absent_before nonempty
    | cons head earlier =>
      rw [declared] at first
      obtain rfl : head = token := Option.some.inj first
      -- the first token does not occur in the text, so it does not occur in a part of it
      intro occurs
      refine absent head List.mem_cons_self (occurs.trans ⟨[], other ++ after, ?_⟩)
      rw [leftmost.whole, List.nil_append, List.append_assoc]

section Shadowed

variable {grammar : Grammar} {token : Text}

/-- Trying the block pairs leaves a text without its line comment as it is. -/
theorem withoutBlocks_of_shadowedBy (shadowed : grammar.ShadowedBy token) (text : Text) :
    withoutBlocks grammar.blockPairs (grammar.withoutLineComment text) =
      ⟨grammar.withoutLineComment text, .outside⟩ := by
  have uncommented :
      LosesLineComment grammar.lineTokens text (grammar.withoutLineComment text) :=
    losesLineComment_iff.mpr rfl
  have absent : ¬ Occurs token (grammar.withoutLineComment text) :=
    uncommented.absent_first shadowed.first shadowed.nonempty
  have tried : LosesBlocks grammar.blockPairs (grammar.withoutLineComment text)
      (withoutBlocks grammar.blockPairs (grammar.withoutLineComment text)) :=
    losesBlocks_iff.mpr rfl
  exact tried.eq_of_absent fun pair declared occurs =>
    absent ((shadowed.inOpeners pair declared).trans occurs)

/-- The same is left of a line without the pairs, and no block comment is open after it. -/
theorem residual_of_shadowedBy (shadowed : grammar.ShadowedBy token) (line : Text) :
    grammar.residual .outside line = grammar.withoutPairs.residual .outside line ∧
      (grammar.residual .outside line).context = .outside := by
  have same : ∀ text, grammar.outsideResidual text =
      ⟨(grammar.withoutLineComment text).trim, .outside⟩ := by
    intro text
    unfold outsideResidual
    rw [withoutBlocks_of_shadowedBy shadowed]
  unfold residual
  simp only
  split
  · exact ⟨rfl, rfl⟩
  · rw [same]
    exact ⟨rfl, rfl⟩

/-- A line is classified as without the pairs, and no block comment is open after it. -/
theorem classify_of_shadowedBy (shadowed : grammar.ShadowedBy token) (line : Text) :
    grammar.classify .outside line = grammar.withoutPairs.classify .outside line ∧
      (grammar.classify .outside line).2 = .outside := by
  obtain ⟨same, closed⟩ := residual_of_shadowedBy shadowed line
  unfold classify
  rw [← same]
  split
  · exact ⟨rfl, rfl⟩
  · exact ⟨rfl, closed⟩

/-- Reading lines never leads into a block comment. -/
theorem Reachable.eq_outside (shadowed : grammar.ShadowedBy token) {context : Context}
    (reachable : grammar.Reachable context) : context = .outside := by
  induction reachable with
  | outside => rfl
  | line _ line before =>
    rw [before]
    exact (residual_of_shadowedBy shadowed line).2

/-- A run reads every line as without the pairs, and no block comment is open after any of them. -/
theorem readings_of_shadowedBy (shadowed : grammar.ShadowedBy token) (lines : List Text) :
    grammar.readings .outside lines = grammar.withoutPairs.readings .outside lines ∧
      ∀ reading ∈ grammar.readings .outside lines, reading.2.context = .outside := by
  induction lines with
  | nil => exact ⟨rfl, fun _ inside => absurd inside List.not_mem_nil⟩
  | cons line lines step =>
    obtain ⟨sameResidual, closed⟩ := residual_of_shadowedBy shadowed line
    obtain ⟨sameClass, _⟩ := classify_of_shadowedBy shadowed line
    obtain ⟨sameLater, closedLater⟩ := step
    rw [readings_cons, readings_cons, ← sameResidual, ← sameClass, closed, ← sameLater]
    exact ⟨rfl, List.forall_mem_cons.mpr ⟨closed, closedLater⟩⟩

/-- Counting lines counts them as without the pairs. -/
theorem countFrom_of_shadowedBy (shadowed : grammar.ShadowedBy token) (count : LineCount)
    (lines : List Text) :
    grammar.countFrom ⟨count, .outside⟩ lines =
      grammar.withoutPairs.countFrom ⟨count, .outside⟩ lines := by
  induction lines generalizing count with
  | nil => rfl
  | cons line lines step =>
    obtain ⟨same, closed⟩ := classify_of_shadowedBy shadowed line
    have first : grammar.countLine ⟨count, .outside⟩ line =
        ⟨count.record (grammar.classify .outside line).1, .outside⟩ :=
      congrArg (Counting.mk _) closed
    have firstAlike : grammar.withoutPairs.countLine ⟨count, .outside⟩ line =
        grammar.countLine ⟨count, .outside⟩ line := by
      unfold countLine
      rw [← same]
    unfold countFrom at step ⊢
    rw [List.foldl_cons, List.foldl_cons, firstAlike, first]
    exact step _

/-- Where the first line token is not empty and every opener contains it, no block comment is ever
opened, and all lines are read and counted as in the grammar without block pairs. -/
theorem pairsInert_of_shadowedBy (shadowed : grammar.ShadowedBy token) : grammar.PairsInert := by
  have counted := countFrom_of_shadowedBy shadowed {}
  constructor
  case reachable => exact fun context reachable => reachable.eq_outside shadowed
  case contexts => exact fun lines => (readings_of_shadowedBy shadowed lines).2
  case readings_eq => exact fun lines => (readings_of_shadowedBy shadowed lines).1
  case countFrom_eq => exact counted
  case countText_eq => exact fun text => congrArg Counting.count (counted text.lines)
  case countBytes_eq => exact fun bytes => congrArg Counting.count (counted (Bytes.lines bytes))

end Shadowed

/-- Comments after two hyphens, and between brackets after two hyphens. -/
def hyphens : Grammar := ofTokens ["--"] [("--[[", "]]")]

/-- Comments between parentheses with stars, where the opener is a line token too. -/
def starredParentheses : Grammar := ofTokens ["(*"] [("(*", "*)")]

/-- The pairs of two languages of the standard registry are inert, so the closer of such a pair is
code on a line of its own. -/
theorem pairsInert_standard :
    Registry.standard.resolve? "a.lua".toList = some (Language.ofTag hyphens "lua") ∧
      hyphens.ShadowedBy "--".toList ∧ hyphens.PairsInert ∧
      hyphens.readings .outside ["x --[[ y".toList, "z ]]".toList] =
        [(.code, ⟨"x".toList, .outside⟩), (.code, ⟨"z ]]".toList, .outside⟩)] ∧
      Registry.standard.resolve? "a.ml".toList = some (Language.ofTag starredParentheses "ml") ∧
      starredParentheses.ShadowedBy "(*".toList ∧ starredParentheses.PairsInert := by
  have shadowedHyphens : hyphens.ShadowedBy "--".toList :=
    ⟨rfl, by decide, List.forall_mem_singleton.mpr ⟨[], "[[".toList, rfl⟩⟩
  have shadowedParentheses : starredParentheses.ShadowedBy "(*".toList :=
    ⟨rfl, by decide, List.forall_mem_singleton.mpr ⟨[], [], rfl⟩⟩
  have inert := pairsInert_of_shadowedBy shadowedHyphens
  exact ⟨by decide +kernel, shadowedHyphens, inert, (inert.readings_eq _).trans (by decide),
    by decide +kernel, shadowedParentheses, pairsInert_of_shadowedBy shadowedParentheses⟩

end Grammar

end LineCensus
