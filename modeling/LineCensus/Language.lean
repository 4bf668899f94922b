import LineCensus.Grammar

/-!
# Languages

A language has a tag, by which reports name it, the file extensions it goes by, and the
grammar of its comments.
-/
namespace LineCensus

/-- A language that the census can count. -/
structure Language where
  /-- The name in reports. -/
  tag : Text
  /-- File extensions without the full stop, in any case. -/
  extensions : List Text
  /-- The comment tokens. -/
  grammar : Grammar
  deriving DecidableEq, Repr

namespace Language

/-- A language whose tag is its only extension. -/
def ofTag (grammar : Grammar) (tag : String) : Language := ⟨tag.toList, [tag.toList], grammar⟩

end Language

end LineCensus
