import LineCensus.Proofs.Text.Leftmost
import LineCensus.Proofs.Text.Trim

/-!
# Tokens in a text with blanks around it

A token that begins and ends with a visible character cannot reach into the blanks around a text. So
blanks around a text move the occurrences of such a token and neither add nor hide one
(`Text.cut?_surrounded`), and they are trimmed off as well (`Text.trim_surrounded`).
-/
namespace LineCensus

namespace Text

/-- A token has a character, and no blank at either end. -/
structure Firm (token : Text) : Prop where
  /-- It has a character. -/
  nonempty : token ≠ []
  /-- It does not begin with a blank. -/
  starts : ∀ char, token.head? = some char → isBlankChar char = false
  /-- It does not end with a blank. -/
  ends : ∀ char, token.getLast? = some char → isBlankChar char = false

instance (token : Text) : Decidable token.Firm :=
  decidable_of_iff (token ≠ [] ∧ token.head?.all (fun char => !isBlankChar char) ∧
      token.getLast?.all fun char => !isBlankChar char) <| by
    simp only [Option.all_eq_true, Bool.not_eq_true']
    exact ⟨fun laws => ⟨laws.1, laws.2.1, laws.2.2⟩,
      fun firm => ⟨firm.nonempty, firm.starts, firm.ends⟩⟩

variable {token front back : Text}

/-- A firm token is firm in reverse. -/
theorem Firm.reverse (firm : token.Firm) : Firm token.reverse where
  nonempty := by simpa using firm.nonempty
  starts char first := firm.ends char (by simpa using first)
  ends char last := firm.starts char (by simpa using last)

/-- A firm token occurs only after the blanks at the front. -/
theorem Firm.after_front (firm : token.Firm) (blank : front.isBlank) {text before after : Text}
    (whole : front ++ text = before ++ token ++ after) :
    ∃ inner, before = front ++ inner ∧ text = inner ++ token ++ after := by
  rw [List.append_assoc] at whole
  rcases List.append_eq_append_iff.mp whole with ⟨inner, same, rest⟩ | ⟨shared, same, rest⟩
  · exact ⟨inner, same, by rw [rest, List.append_assoc]⟩
  · rcases shared with - | ⟨char, others⟩
    · exact ⟨[], by simpa using same.symm, by simpa using rest.symm⟩
    · -- the token would begin with one of the blanks
      obtain ⟨head, tail, rfl⟩ := List.exists_cons_of_ne_nil firm.nonempty
      obtain ⟨rfl, _⟩ := List.cons.inj rest
      have visible := firm.starts head rfl
      have hidden := List.all_eq_true.mp blank head (by simp [same])
      rw [visible] at hidden
      cases hidden

/-- A firm token occurs only before the blanks at the end. -/
theorem Firm.before_back (firm : token.Firm) (blank : back.isBlank) {text before after : Text}
    (whole : text ++ back = before ++ token ++ after) :
    ∃ outer, after = outer ++ back ∧ text = before ++ token ++ outer := by
  have mirrored : back.reverse ++ text.reverse =
      after.reverse ++ token.reverse ++ before.reverse := by
    rw [← List.reverse_append, whole]
    simp
  obtain ⟨inner, same, rest⟩ :=
    firm.reverse.after_front (back.isBlank_reverse.trans blank) mirrored
  refine ⟨inner.reverse, ?_, ?_⟩
  · rw [← List.reverse_reverse after, same]
    simp
  · rw [← List.reverse_reverse text, rest]
    simp

/-- A firm token occurs only between the blanks around a text. -/
theorem Firm.between (firm : token.Firm) (blankFront : front.isBlank) (blankBack : back.isBlank)
    {text before after : Text} (whole : front ++ text ++ back = before ++ token ++ after) :
    ∃ inner outer, before = front ++ inner ∧ after = outer ++ back ∧
      text = inner ++ token ++ outer := by
  rw [List.append_assoc] at whole
  obtain ⟨inner, rfl, rest⟩ := firm.after_front blankFront whole
  obtain ⟨outer, rfl, same⟩ := firm.before_back blankBack rest
  exact ⟨inner, outer, rfl, rfl, same⟩

/-- The cut at a firm token has the blanks around a text at its outer ends. -/
theorem cut?_surrounded (firm : token.Firm) (blankFront : front.isBlank) (blankBack : back.isBlank)
    (text : Text) :
    cut? (front ++ text ++ back) token =
      (cut? text token).map fun cut => ⟨front ++ cut.before, cut.after ++ back⟩ := by
  rcases found : cut? text token with - | cut
  · refine cut?_eq_none.mpr ?_
    rintro ⟨before, after, whole⟩
    obtain ⟨inner, outer, _, _, same⟩ := firm.between blankFront blankBack whole
    exact cut?_eq_none.mp found ⟨inner, outer, same⟩
  · have leftmost := leftmost_of_cut? found
    refine leftmost_iff.mp ⟨?_, ?_⟩
    · rw [leftmost.whole]
      simp
    · intro before after whole
      obtain ⟨inner, outer, rfl, _, same⟩ := firm.between blankFront blankBack whole
      have shorter := leftmost.least inner outer same
      simpa using shorter

/-- The leftmost occurrence of a token is so without the text after it. -/
theorem Leftmost.ending {text before after : Text} (leftmost : Leftmost token text before after) :
    Leftmost token (before ++ token) before [] := by
  refine ⟨(List.append_nil _).symm, fun inner outer whole => ?_⟩
  apply leftmost.least inner (outer ++ after)
  rw [leftmost.whole, whole]
  simp

/-- A text with blanks around it is trimmed to what the text is trimmed to. -/
theorem trim_surrounded (blankFront : front.isBlank) (blankBack : back.isBlank) (text : Text) :
    (front ++ text ++ back).trim = text.trim := by
  have once : TrimsTo text text.trim := trimsTo_iff.mpr rfl
  obtain ⟨before, after, whole, blankBefore, blankAfter⟩ := once.surrounded
  refine trimsTo_iff.mp ⟨⟨front ++ before, after ++ back, ?_, ?_, ?_⟩, once.starts, once.ends⟩
  · calc
      front ++ text ++ back = front ++ (before ++ text.trim ++ after) ++ back := by rw [← whole]
      _ = front ++ before ++ text.trim ++ (after ++ back) := by simp
  · rw [isBlank_append, blankFront, blankBefore]
    rfl
  · rw [isBlank_append, blankAfter, blankBack]
    rfl

end Text

end LineCensus
