import LineCensus.Text.Basic

/-!
# Cutting a text at a token

A token occurs in a text where the text goes on with the characters of the token. The cut
at the leftmost occurrence gives the text before it and the text after it; the two laws say
that nothing is lost (`Text.eq_of_cut?`) and that a text without a cut has no occurrence at
all (`Text.cut?_eq_none`). The empty token occurs at the front of every text.
-/
namespace LineCensus

/-- The text on either side of an occurrence of a token. -/
structure Cut where
  /-- The text before the occurrence. -/
  before : Text
  /-- The text after the occurrence. -/
  after : Text
  deriving DecidableEq, Repr

namespace Text

/-- The text after a token, when the text starts with that token. -/
def afterToken? : Text → Text → Option Text
  | [], text => some text
  | _ :: _, [] => none
  | wanted :: token, char :: text => if wanted = char then afterToken? token text else none

/-- Looks for the leftmost occurrence of a token, holding the characters already passed in
reverse order. -/
def cutFrom? (token : Text) (passed : Text) : Text → Option Cut
  | [] => (afterToken? token []).map fun after => ⟨passed.reverse, after⟩
  | char :: rest =>
    match afterToken? token (char :: rest) with
    | some after => some ⟨passed.reverse, after⟩
    | none => cutFrom? token (char :: passed) rest

/-- The text around the leftmost occurrence of a token. -/
def cut? (text token : Text) : Option Cut := cutFrom? token [] text

/-- A token occurs in a text when the text is some text, the token, and some text. -/
def Occurs (token text : Text) : Prop := ∃ before after, text = before ++ token ++ after

/-- The text after a token is what follows its characters. -/
theorem afterToken?_eq_some_iff {token text after : Text} :
    afterToken? token text = some after ↔ text = token ++ after := by
  induction token generalizing text with
  | nil => simp [afterToken?, eq_comm]
  | cons wanted token step =>
    cases text with
    | nil => simp [afterToken?]
    | cons char rest =>
      by_cases same : wanted = char
      · subst same
        simp [afterToken?, step]
      · have different : char ≠ wanted := fun equal => same equal.symm
        simp [afterToken?, same, different]

/-- The characters passed only lead the part before the token. -/
theorem cutFrom?_eq_map (token passed text : Text) :
    cutFrom? token passed text =
      (cut? text token).map fun cut => ⟨passed.reverse ++ cut.before, cut.after⟩ := by
  induction text generalizing passed with
  | nil =>
    cases found : afterToken? token [] <;> simp [cut?, cutFrom?, found]
  | cons char rest step =>
    cases found : afterToken? token (char :: rest) with
    | some after => simp [cut?, cutFrom?, found]
    | none =>
      simp only [cut?, cutFrom?, found]
      rw [step (char :: passed), step [char]]
      cases cut? rest token <;> simp

/-- At the front of a text, either the token is there, or the cut is that of the rest. -/
theorem cut?_cons (token : Text) (char : Char) (rest : Text) :
    cut? (char :: rest) token =
      match afterToken? token (char :: rest) with
      | some after => some ⟨[], after⟩
      | none => (cut? rest token).map fun cut => ⟨char :: cut.before, cut.after⟩ := by
  cases found : afterToken? token (char :: rest) with
  | some after => simp [cut?, cutFrom?, found]
  | none =>
    simp only [cut?, cutFrom?, found]
    rw [cutFrom?_eq_map token [char]]
    rfl

/-- The parts of a cut and the token between them are the whole text. -/
theorem eq_of_cut? {token text : Text} {cut : Cut} (found : cut? text token = some cut) :
    text = cut.before ++ token ++ cut.after := by
  induction text generalizing cut with
  | nil =>
    simp only [cut?, cutFrom?, Option.map_eq_some_iff] at found
    obtain ⟨after, start, rfl⟩ := found
    simpa using afterToken?_eq_some_iff.mp start
  | cons char rest step =>
    rw [cut?_cons] at found
    split at found
    · next after start =>
      cases found
      simpa using afterToken?_eq_some_iff.mp start
    · obtain ⟨inner, later, rfl⟩ := Option.map_eq_some_iff.mp found
      simp [step later]

/-- A text has no cut exactly when the token occurs nowhere in it. -/
theorem cut?_eq_none {token text : Text} : cut? text token = none ↔ ¬ Occurs token text := by
  induction text with
  | nil =>
    cases token with
    | nil => simp [cut?, cutFrom?, afterToken?, Occurs]
    | cons => simp [cut?, cutFrom?, afterToken?, Occurs]
  | cons char rest step =>
    rw [cut?_cons]
    constructor
    · intro missing
      split at missing
      · cases missing
      · next nowhere =>
        rw [Option.map_eq_none_iff, step] at missing
        rintro ⟨before, after, whole⟩
        cases before with
        | nil =>
          rw [afterToken?_eq_some_iff.mpr (by simpa using whole)] at nowhere
          cases nowhere
        | cons head tail =>
          simp only [List.cons_append, List.cons.injEq] at whole
          exact missing ⟨tail, after, whole.2⟩
    · intro absent
      split
      · next after start =>
        exact absurd ⟨[], after, by simpa using afterToken?_eq_some_iff.mp start⟩ absent
      · rw [Option.map_eq_none_iff, step]
        rintro ⟨before, after, whole⟩
        exact absent ⟨char :: before, after, by simp [whole]⟩

/-- No other way to write a text around a token has a shorter part before it. -/
theorem length_before_le_of_cut? {token text : Text} {cut : Cut}
    (found : cut? text token = some cut) {before after : Text}
    (whole : text = before ++ token ++ after) : cut.before.length ≤ before.length := by
  induction text generalizing cut before with
  | nil =>
    simp only [cut?, cutFrom?, Option.map_eq_some_iff] at found
    obtain ⟨_, _, rfl⟩ := found
    simp
  | cons char rest step =>
    rw [cut?_cons] at found
    split at found
    · cases found
      simp
    · next nowhere =>
      obtain ⟨inner, later, rfl⟩ := Option.map_eq_some_iff.mp found
      cases before with
      | nil =>
        rw [afterToken?_eq_some_iff.mpr (by simpa using whole)] at nowhere
        cases nowhere
      | cons head tail =>
        simp only [List.cons_append, List.cons.injEq] at whole
        simpa using step later whole.2

end Text

end LineCensus
