import LineCensus.Text.Basic

/-!
# Comment grammars

What the census knows of a language is how its comments are marked: the tokens after which
the rest of a line is a comment, and the pairs of tokens around a block comment. Both are
lists because their order decides which token is tried first. Any text may be a token, the
empty one included.
-/
namespace LineCensus

/-- The tokens around a block comment. -/
structure BlockPair where
  /-- The token that opens the comment. -/
  opener : Text
  /-- The token that closes it. -/
  closer : Text
  deriving DecidableEq, Repr

/-- The comment tokens of a language, each kind in the order in which it is tried. -/
structure Grammar where
  /-- Tokens that begin a comment up to the end of the line. -/
  lineTokens : List Text := []
  /-- Pairs of tokens around a block comment. -/
  blockPairs : List BlockPair := []
  deriving DecidableEq, Repr

namespace Grammar

/-- A grammar from tokens spelled as literals. -/
def ofTokens (lineTokens : List String) (blockPairs : List (String × String)) : Grammar where
  lineTokens := lineTokens.map String.toList
  blockPairs := blockPairs.map fun pair => ⟨pair.1.toList, pair.2.toList⟩

/-- Line comments after two slashes, block comments between slashes with stars. -/
def slashes : Grammar := ofTokens ["//"] [("/*", "*/")]

/-- Block comments of markup languages. -/
def markup : Grammar := ofTokens [] [("<!--", "-->")]

/-- Line comments after a number sign. -/
def hash : Grammar := ofTokens ["#"] []

/-- Line comments after a semicolon. -/
def semicolon : Grammar := ofTokens [";"] []

end Grammar

end LineCensus
