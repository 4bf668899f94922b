import LineCensus.Text.Cut

/-!
# Leftmost occurrences

A text that a token occurs in is some text, the token, and some text. The leftmost occurrence is
the one with the least in front of it. There is at most one such split, and cutting a text at a
token finds it (`Text.leftmost_iff`).
-/
namespace LineCensus

namespace Text

/-- A text is split around the leftmost occurrence of a token in it. -/
structure Leftmost (token text before after : Text) : Prop where
  /-- The parts and the token between them are the text. -/
  whole : text = before ++ token ++ after
  /-- No other split around the token has less in front. -/
  least : ∀ front back : Text, text = front ++ token ++ back → before.length ≤ front.length

/-- A split around the leftmost occurrence is one around an occurrence. -/
theorem Leftmost.occurs {token text before after : Text}
    (leftmost : Leftmost token text before after) : Occurs token text :=
  ⟨before, after, leftmost.whole⟩

/-- There is one split around the leftmost occurrence. -/
theorem Leftmost.unique {token text before after before' after' : Text}
    (leftmost : Leftmost token text before after)
    (leftmost' : Leftmost token text before' after') : before = before' ∧ after = after' := by
  have sameLength : before.length = before'.length :=
    Nat.le_antisymm (leftmost.least _ _ leftmost'.whole) (leftmost'.least _ _ leftmost.whole)
  have sameText : before ++ token ++ after = before' ++ token ++ after' :=
    leftmost.whole.symm.trans leftmost'.whole
  rw [List.append_assoc, List.append_assoc] at sameText
  have parts := List.append_inj sameText sameLength
  exact ⟨parts.1, List.append_cancel_left parts.2⟩

/-- A cut is the split around the leftmost occurrence. -/
theorem leftmost_of_cut? {token text : Text} {cut : Cut} (found : cut? text token = some cut) :
    Leftmost token text cut.before cut.after :=
  ⟨eq_of_cut? found, fun _ _ whole => length_before_le_of_cut? found whole⟩

/-- The splits around the leftmost occurrence are the cuts. -/
theorem leftmost_iff {token text before after : Text} :
    Leftmost token text before after ↔ cut? text token = some ⟨before, after⟩ := by
  constructor
  · intro leftmost
    rcases found : cut? text token with _ | cut
    · exact absurd leftmost.occurs (cut?_eq_none.mp found)
    · have parts := leftmost.unique (leftmost_of_cut? found)
      rw [parts.1, parts.2]
  · exact leftmost_of_cut?

end Text

end LineCensus
