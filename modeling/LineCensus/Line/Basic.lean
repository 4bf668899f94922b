import LineCensus.Grammar
import LineCensus.Text.Cut

/-!
# Reading a line

A line is code when something of it is left after its comments are taken away, a comment when
nothing is, and blank when it held nothing but blanks to begin with. The only thing carried
from one line to the next is whether a block comment is open, and which token closes it.

What is left of a line, its residual, is found in three steps on the trimmed line:

* in a block comment, everything up to and including the leftmost closer goes, or the whole
  line when the closer does not occur;
* the first of the line tokens in the order of the grammar that occurs anywhere cuts the line
  before its leftmost occurrence, and no other line token is tried;
* each block pair is tried once, in the order of the grammar. From its leftmost opener on, a
  closed comment is taken out and the text around it joined; an open one takes the rest of
  the line, stays open, and ends the trial of the pairs.

A blank line is neither changed by a context nor changes it.
-/
namespace LineCensus

/-- What a line begins in. -/
inductive Context where
  /-- No block comment is open. -/
  | outside
  /-- A block comment is open and ends at the token. -/
  | inside (closer : Text)
  deriving DecidableEq, Repr, Inhabited

namespace Context

/-- A block comment is open. -/
def isInside : Context → Bool
  | outside => false
  | inside _ => true

/-- The token that closes the open block comment. -/
def closer? : Context → Option Text
  | outside => none
  | inside closer => some closer

end Context

/-- What a line counts as. -/
inductive LineKind where
  /-- Something is left of the line without its comments. -/
  | code
  /-- Only comments, and blanks around them. -/
  | comment
  /-- Only blanks. -/
  | blank
  deriving DecidableEq, Repr

/-- What is left of a line, and what the next line begins in. -/
structure Residual where
  /-- The line without its comments and the blanks around it. -/
  text : Text
  /-- The context after the line. -/
  context : Context
  deriving DecidableEq, Repr

namespace Grammar

/-- A text before the leftmost occurrence of the first line token that occurs in it. -/
def withoutLineComment (grammar : Grammar) (text : Text) : Text :=
  match grammar.lineTokens.findSome? fun token => text.cut? token with
  | some cut => cut.before
  | none => text

/-- Tries block pairs in order, each once, on the text that the pairs before left. -/
def withoutBlocks : List BlockPair → Text → Residual
  | [], text => ⟨text, .outside⟩
  | pair :: others, text =>
    match text.cut? pair.opener with
    | none => withoutBlocks others text
    | some opened =>
      match opened.after.cut? pair.closer with
      | some closed => withoutBlocks others (opened.before ++ closed.after)
      | none => ⟨opened.before, .inside pair.closer⟩

/-- What is left of a text outside any block comment. -/
def outsideResidual (grammar : Grammar) (text : Text) : Residual :=
  let left := withoutBlocks grammar.blockPairs (grammar.withoutLineComment text)
  { left with text := left.text.trim }

/-- What is left of a line that begins in a context. -/
def residual (grammar : Grammar) (context : Context) (line : Text) : Residual :=
  let trimmed := line.trim
  if trimmed.isEmpty then ⟨[], context⟩
  else match context with
    | .outside => grammar.outsideResidual trimmed
    | .inside closer =>
      match trimmed.cut? closer with
      | none => ⟨[], context⟩
      | some cut => grammar.outsideResidual cut.after

/-- What a line that begins in a context counts as, and the context after it. -/
def classify (grammar : Grammar) (context : Context) (line : Text) : LineKind × Context :=
  if line.trim.isEmpty then (.blank, context)
  else
    let left := grammar.residual context line
    (if left.text.trim.isEmpty then .comment else .code, left.context)

end Grammar

end LineCensus
