import Mathlib.Tactic.ByContra
import LineCensus.Text.LowerCase

/-!
# Lower case within a longer text

A text is lower-cased character by character, and what stands around it matters for a capital sigma
only. Of what stands before it, all that matters is whether a cased character is met on the way back
(`Text.lowerAfter_congr`). So a text has one lower-case form after a word and another one by itself
exactly when a sigma of it ends a word to which no other character of the text belongs
(`Text.EndingSigma`, `Text.lowerAfter_of_not_endingSigma`). The two forms differ in that sigma.

No character but the full stop becomes a full stop, so the parts of a text between full stops can
be told from its lower-case form.
-/
namespace LineCensus

/-- The lower-case forms of characters that have one of their own lie beyond the full stop. -/
theorem stop_lt_shifted : ∀ run ∈ CaseRun.all, 0x2E < (run.first : Int) + run.shift := by
  decide +kernel

/-- A capital sigma is not passed over when the end of a word is looked for. -/
theorem isCaseIgnorable_sigma : isCaseIgnorable 'Σ' = false := by decide +kernel

/-- A character that case ignores is no capital sigma. -/
theorem ne_sigma_of_ignorable {char : Char} (ignored : isCaseIgnorable char = true) :
    char ≠ 'Σ' := by
  rintro rfl
  exact Bool.false_ne_true (isCaseIgnorable_sigma.symm.trans ignored)

/-- A full stop is passed over when the end of a word is looked for. -/
theorem isCaseIgnorable_stop : isCaseIgnorable '.' = true := by decide +kernel

/-- A full stop has no lower-case form of its own. -/
theorem lowerChar_stop : lowerChar '.' = '.' := by decide

/-- Only a full stop has a full stop as its lower-case form. -/
theorem lowerChar_ne_stop {char : Char} (other : char ≠ '.') : lowerChar char ≠ '.' := by
  unfold lowerChar
  split
  · next run found =>
    have beyond := stop_lt_shifted run (List.mem_of_find?_eq_some found)
    have inside := List.find?_some found
    simp only [CaseRun.contains, Bool.and_eq_true, decide_eq_true_eq] at inside
    intro same
    have code := congrArg Char.toNat same
    by_cases valid : ((char.toNat : Int) + run.shift).toNat.isValidChar
    · rw [Char.ofNat, dif_pos valid] at code
      have shifted : ((char.toNat : Int) + run.shift).toNat = 0x2E := code
      omega
    · rw [Char.ofNat, dif_neg valid] at code
      cases code
  · exact other

namespace Text

variable {char : Char} {text passed other before after : Text}

/-- A character that case ignores is passed over. -/
theorem startsCased_of_ignorable (ignored : isCaseIgnorable char = true) (text : Text) :
    startsCased (char :: text) = startsCased text := by
  unfold startsCased
  rw [List.dropWhile_cons_of_pos ignored]

/-- A character that case does not ignore decides. -/
theorem startsCased_of_not_ignorable (kept : isCaseIgnorable char = false) (text : Text) :
    startsCased (char :: text) = isCased char := by
  unfold startsCased
  rw [List.dropWhile_cons_of_neg (by simp [kept])]

/-- A character in front leaves two texts alike in how they start. -/
theorem startsCased_cons_congr (char : Char) (same : passed.startsCased = other.startsCased) :
    startsCased (char :: passed) = startsCased (char :: other) := by
  cases kept : isCaseIgnorable char with
  | true => rw [startsCased_of_ignorable kept, startsCased_of_ignorable kept, same]
  | false => rw [startsCased_of_not_ignorable kept, startsCased_of_not_ignorable kept]

/-- Of the characters passed, lower case depends on whether a cased one is met first on the way
back. -/
theorem lowerAfter_congr (same : passed.startsCased = other.startsCased) (text : Text) :
    lowerAfter passed text = lowerAfter other text := by
  induction text generalizing passed other with
  | nil => rfl
  | cons char rest step =>
    rw [lowerAfter, lowerAfter, same, step (startsCased_cons_congr char same)]

/-- A text goes on in lower case after its first part, whatever becomes of that part. -/
theorem exists_lowerAfter_append (passed left right : Text) :
    ∃ front, lowerAfter passed (left ++ right) =
      front ++ lowerAfter (left.reverse ++ passed) right := by
  induction left generalizing passed with
  | nil => exact ⟨[], rfl⟩
  | cons char left step =>
    obtain ⟨front, rest⟩ := step (char :: passed)
    rw [List.cons_append, lowerAfter, rest, List.reverse_cons, List.append_assoc,
      List.singleton_append, ← List.append_assoc]
    exact ⟨_, rfl⟩

/-- A text without full stops has none in lower case. -/
theorem stop_not_mem_lowerAfter (single : '.' ∉ text) : '.' ∉ lowerAfter passed text := by
  induction text generalizing passed with
  | nil => exact List.not_mem_nil
  | cons char rest step =>
    obtain ⟨notStop, restSingle⟩ := List.ne_and_not_mem_of_not_mem_cons single
    rw [lowerAfter, List.mem_append, not_or]
    refine ⟨?_, step restSingle⟩
    split
    · split
      · decide
      · decide
    · split
      · decide
      · exact fun inside =>
          lowerChar_ne_stop notStop.symm (List.mem_singleton.mp inside).symm

/-- A capital sigma of a text ends a word to which none of its other characters belongs: case
ignores the characters before it, and no cased character follows. -/
structure EndingSigma (text before after : Text) : Prop where
  /-- The sigma stands between two parts of the text. -/
  parts : text = before ++ 'Σ' :: after
  /-- Case ignores the part before it. -/
  ignored : ∀ char ∈ before, isCaseIgnorable char = true
  /-- No cased character is met first in the part after it. -/
  last : after.startsCased = false

/-- A character that case ignores can be put in front of such a sigma. -/
theorem EndingSigma.cons (ending : EndingSigma text before after)
    (ignored : isCaseIgnorable char = true) :
    EndingSigma (char :: text) (char :: before) after where
  parts := congrArg (char :: ·) ending.parts
  ignored := List.forall_mem_cons.mpr ⟨ignored, ending.ignored⟩
  last := ending.last

/-- A text without such a sigma has one lower-case form, whatever stands before it. -/
theorem lowerAfter_of_not_endingSigma (without : ∀ before after, ¬ EndingSigma text before after)
    (passed other : Text) : lowerAfter passed text = lowerAfter other text := by
  induction text generalizing passed other with
  | nil => rfl
  | cons char rest step =>
    rw [lowerAfter, lowerAfter]
    cases kept : isCaseIgnorable char with
    | true =>
      have notSigma := ne_sigma_of_ignorable kept
      have tail := step (fun before after ending => without _ _ (ending.cons kept))
        (char :: passed) (char :: other)
      rw [if_neg notSigma, if_neg notSigma, tail]
    | false =>
      -- Beyond this character nothing that stands before the text is looked at.
      have alike : startsCased (char :: passed) = startsCased (char :: other) := by
        rw [startsCased_of_not_ignorable kept, startsCased_of_not_ignorable kept]
      rw [lowerAfter_congr alike]
      by_cases sigma : char = 'Σ'
      · subst sigma
        have inWord : startsCased rest = true := by
          by_contra last
          exact without [] rest ⟨rfl, nofun, by simpa using last⟩
        rw [inWord, Bool.not_true, Bool.and_false, Bool.and_false]
      · rw [if_neg sigma, if_neg sigma]

/-- Past characters that case ignores, lower case depends on what stands before them. -/
theorem lowerAfter_append_of_ignored (ignored : ∀ char ∈ before, isCaseIgnorable char = true)
    (passed rest : Text) :
    lowerAfter passed (before ++ rest) = before.lower ++ lowerAfter passed rest := by
  have noSigma : ∀ front back, ¬ EndingSigma before front back := by
    intro front back ending
    have inside : 'Σ' ∈ before := ending.parts ▸ List.mem_append_right _ List.mem_cons_self
    exact ne_sigma_of_ignorable (ignored _ inside) rfl
  have parts : lowerAfter passed (before ++ rest) =
      lowerAfter passed before ++ lowerAfter passed rest := by
    clear noSigma
    induction before generalizing passed with
    | nil => rfl
    | cons char before step =>
      obtain ⟨first, others⟩ := List.forall_mem_cons.mp ignored
      have notSigma := ne_sigma_of_ignorable first
      rw [List.cons_append, lowerAfter, lowerAfter, if_neg notSigma, if_neg notSigma,
        step others (char :: passed),
        lowerAfter_congr (startsCased_of_ignorable first passed) rest, List.append_assoc]
  rw [parts, lowerAfter_of_not_endingSigma noSigma passed []]
  rfl

/-- After a cased character, the sigma that ends the word is a final one. -/
theorem lowerAfter_of_endingSigma (ending : EndingSigma text before after)
    (cased : passed.startsCased = true) :
    lowerAfter passed text = before.lower ++ 'ς' :: lowerAfter ['Σ'] after := by
  have alike : startsCased ('Σ' :: passed) = startsCased ['Σ'] := by
    rw [startsCased_of_not_ignorable isCaseIgnorable_sigma,
      startsCased_of_not_ignorable isCaseIgnorable_sigma]
  rw [ending.parts, lowerAfter_append_of_ignored ending.ignored, lowerAfter,
    lowerAfter_congr alike, if_pos rfl, cased, ending.last]
  rfl

/-- In a name, the text after the last full stop is lower-cased as a part of the name. -/
theorem exists_lower_stem (stem extension : Text) :
    ∃ front, lower (stem ++ '.' :: extension) =
      front ++ '.' :: lowerAfter ('.' :: stem.reverse) extension := by
  obtain ⟨front, rest⟩ := exists_lowerAfter_append [] stem ('.' :: extension)
  have stop : lowerAfter (stem.reverse ++ []) ('.' :: extension) =
      '.' :: lowerAfter ('.' :: stem.reverse) extension := by
    rw [lowerAfter, if_neg (by decide), if_neg (by decide), lowerChar_stop, List.append_nil,
      List.singleton_append]
  exact ⟨front, rest.trans (congrArg (front ++ ·) stop)⟩

end Text

end LineCensus
