import LineCensus.Proofs.Registry.History
import LineCensus.Proofs.Text.LowerCase

/-!
# The extensions of the newest language

A registry lower-cases the extensions of a language by themselves and the extension of a file name
as a part of that name. The language registered last is found by what the extension has become in
the name (`Registry.resolve?_eq_newest_iff`). That is the text it was entered under, unless a sigma
of the extension ends the word that the rest of the name begins: such a sigma is a final one in the
name and no final one in the entry. So the newest language is found by each of its extensions but
these, and by one of these exactly when it also has the extension with the final sigma
(`Registry.finds_newest_iff`).
-/
namespace LineCensus.Registry

section Newest

variable {history : List Registration} {language : Language} {name extension : Text}
  (newest : (registered history).getLast? = some language)

include newest

/-- The newest language is found by the extension of a name that is not bound exactly when one of
its own extensions is this text in lower case. -/
theorem resolve?_eq_newest_iff (unbound : (ofHistory history).fileNames.lookup name.lower = none)
    (named : name.lower.extension? = some extension) :
    (ofHistory history).resolve? name = some language ↔
      ∃ listed ∈ language.extensions, listed.lower = extension := by
  obtain ⟨earlier, calls⟩ := List.getLast?_eq_some_iff.mp newest
  rw [resolve?_of_unbound unbound, named, Option.bind_some, lookup_extensions_eq_find?, calls,
    List.reverse_append, List.reverse_singleton, List.singleton_append, List.find?_cons]
  split
  · next lists => exact ⟨fun _ => of_decide_eq_true lists, fun _ => rfl⟩
  · next unlisted =>
    -- An equal language registered before lists no other extensions.
    have absent := of_decide_eq_false unlisted
    refine ⟨fun found => absurd ?_ absent, fun lists => absurd lists absent⟩
    have lists := List.find?_some found
    exact of_decide_eq_true lists

/-- The newest language is found by a name that is not bound and has one of its extensions, unless
the extension has a sigma that ends the word before the full stop. Then it is found exactly when it
also has the extension with that sigma as a final one. -/
theorem finds_newest_iff (listed : extension ∈ language.extensions) (single : '.' ∉ extension)
    (stem : Text)
    (unbound : (ofHistory history).fileNames.lookup (Text.lower (stem ++ '.' :: extension)) =
      none) :
    (ofHistory history).resolve? (stem ++ '.' :: extension) = some language ↔
      ∀ before after, Text.startsCased stem.reverse = true →
        extension.EndingSigma before after → ∃ other ∈ language.extensions,
          other.lower = before.lower ++ 'ς' :: Text.lowerAfter ['Σ'] after := by
  obtain ⟨front, lowered⟩ := Text.exists_lower_stem stem extension
  have named : (Text.lower (stem ++ '.' :: extension)).extension? =
      some (Text.lowerAfter ('.' :: stem.reverse) extension) := by
    rw [lowered]
    exact Text.extension?_append front (Text.stop_not_mem_lowerAfter single)
  have sameCase : Text.startsCased ('.' :: stem.reverse) = Text.startsCased stem.reverse :=
    Text.startsCased_of_ignorable isCaseIgnorable_stop _
  rw [resolve?_eq_newest_iff newest unbound named]
  constructor
  · rintro ⟨other, inside, same⟩ before after cased ending
    exact ⟨other, inside,
      same.trans (Text.lowerAfter_of_endingSigma ending (sameCase.trans cased))⟩
  · intro final
    by_cases ends : ∃ before after, extension.EndingSigma before after
    · obtain ⟨before, after, ending⟩ := ends
      cases cased : Text.startsCased stem.reverse with
      | true =>
        obtain ⟨other, inside, same⟩ := final before after cased ending
        have formed := Text.lowerAfter_of_endingSigma ending (sameCase.trans cased)
        exact ⟨other, inside, same.trans formed.symm⟩
      | false =>
        have alone : Text.startsCased [] = Text.startsCased ('.' :: stem.reverse) :=
          (sameCase.trans cased).symm
        exact ⟨extension, listed, Text.lowerAfter_congr alone extension⟩
    · have without : ∀ before after, ¬ extension.EndingSigma before after :=
        fun before after ending => ends ⟨before, after, ending⟩
      exact ⟨extension, listed, Text.lowerAfter_of_not_endingSigma without _ _⟩

end Newest

/-- A language with an extension that is a sigma, in the form after a word too. -/
def bothSigmas : Language := ⟨"logos".toList, ["Σ".toList, "ς".toList], .hash⟩

/-- By a name in which the sigma ends the word, the language with both forms is found. -/
theorem finds_newest_bothSigmas :
    (registered [.language bothSigmas]).getLast? = some bothSigmas ∧
      "Σ".toList ∈ bothSigmas.extensions ∧ '.' ∉ "Σ".toList ∧
      (ofHistory [.language bothSigmas]).fileNames.lookup (Text.lower "ΛΟΓΟ.Σ".toList) = none ∧
      (ofHistory [.language bothSigmas]).resolve? "ΛΟΓΟ.Σ".toList = some bothSigmas := by
  have newest : (registered [.language bothSigmas]).getLast? = some bothSigmas := rfl
  refine ⟨newest, List.mem_cons_self, by decide, rfl,
    (finds_newest_iff newest List.mem_cons_self (by decide) "ΛΟΓΟ".toList rfl).mpr ?_⟩
  intro before after _ ending
  obtain ⟨rfl, rfl⟩ : before = [] ∧ after = [] := by
    have parts := ending.parts
    rcases before with - | ⟨first, before⟩
    · exact ⟨rfl, (List.cons.inj parts).2.symm⟩
    · exact absurd (List.cons.inj parts).2 (by simp)
  exact ⟨"ς".toList, List.mem_cons_of_mem _ List.mem_cons_self, by decide +kernel⟩

/-- A language with an extension that is a sigma. -/
def capitalSigma : Language := ⟨"sigma".toList, ["Σ".toList], .hash⟩

/-- A language that has just been registered is not found by a name with its extension, though no
file name is bound. -/
theorem not_finds_capitalSigma :
    (registered [.language capitalSigma]).getLast? = some capitalSigma ∧
      "Σ".toList ∈ capitalSigma.extensions ∧ '.' ∉ "Σ".toList ∧
      (ofHistory [.language capitalSigma]).fileNames.lookup (Text.lower "a.Σ".toList) = none ∧
      (ofHistory [.language capitalSigma]).resolve? "a.Σ".toList = none :=
  ⟨rfl, List.mem_cons_self, by decide, rfl, by decide +kernel⟩

end LineCensus.Registry
