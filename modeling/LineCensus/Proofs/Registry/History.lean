import LineCensus.Registry.Standard
import Mathlib.Data.List.Induction
import Mathlib.Data.List.TakeWhile

/-!
# Registries by their history

A registry is what a sequence of registrations has made of the empty one. It finds for a file name
what the sequence says of the name, read without any table (`Registry.resolve?_eq_iff_finds`): the
language that the last successful registration of the lower-cased name has bound it to, or else the
last language that has been registered with the extension, or none. A file name is bound to the
first language under its tag at that time, whichever languages come later (`Registry.FirstTagged`).

The tables follow the history by one step each: what a registration at the end does to the entry of
a name (`Registry.lastBound_concat`) and to the entry of an extension.
-/
namespace LineCensus

namespace Text

/-- The text after the last of the full stops is the extension. -/
theorem extension?_append (stem : Text) {extension : Text} (last : '.' ∉ extension) :
    extension? (stem ++ '.' :: extension) = some extension := by
  have passed : ∀ char ∈ extension.reverse, decide (char ≠ '.') = true := by
    intro char inside
    rw [decide_eq_true_eq]
    rintro rfl
    exact last (List.mem_reverse.mp inside)
  unfold extension?
  rw [if_pos (List.mem_append_right _ List.mem_cons_self), List.reverse_append,
    List.reverse_cons, List.append_assoc, List.takeWhile_append_of_pos passed]
  simp

/-- The extension of a name is what comes after its last full stop. -/
theorem extension?_eq_some_iff {name extension : Text} :
    name.extension? = some extension ↔
      ∃ stem, name = stem ++ '.' :: extension ∧ '.' ∉ extension := by
  constructor
  · intro found
    have stop : '.' ∈ name := by
      by_contra missing
      unfold extension? at found
      rw [if_neg missing] at found
      cases found
    obtain ⟨after, before, whole, last⟩ := List.eq_append_cons_of_mem (List.mem_reverse.mpr stop)
    have parts : name = before.reverse ++ '.' :: after.reverse := by
      rw [← List.reverse_reverse name, whole]
      simp
    have kept : '.' ∉ after.reverse := fun inside => last (List.mem_reverse.mp inside)
    rw [parts, extension?_append _ kept] at found
    obtain rfl := Option.some.inj found
    exact ⟨before.reverse, parts, kept⟩
  · rintro ⟨stem, rfl, last⟩
    exact extension?_append stem last

end Text

/-- A registration with a registry. -/
inductive Registration where
  /-- A language is registered. -/
  | language (language : Language)
  /-- A whole file name is registered for a tag. -/
  | fileName (name tag : Text)
  deriving DecidableEq, Repr

namespace Registration

/-- The language that is registered. -/
def language? : Registration → Option Language
  | language registered => some registered
  | fileName _ _ => none

end Registration

namespace Registry

/-- Registers a language or a file name. -/
def apply (registry : Registry) : Registration → Registry
  | .language language => registry.register language
  | .fileName name tag => registry.registerFileName name tag

/-- The registry that registrations make of the empty one. -/
def ofHistory (history : List Registration) : Registry := history.foldl apply {}

/-- The languages that have been registered, in order. -/
def registered (history : List Registration) : List Language :=
  history.filterMap Registration.language?

/-- A language is the first that has been registered under a tag. -/
structure FirstTagged (history : List Registration) (tag : Text) (language : Language) : Prop where
  /-- It has the tag. -/
  tagged : language.tag = tag
  /-- No language before it has the tag. -/
  first : ∃ earlier later, registered history = earlier ++ language :: later ∧
    ∀ other ∈ earlier, other.tag ≠ tag

/-- A language is the last that has been registered with an extension, which is given in lower
case. -/
structure LastListing (history : List Registration) (extension : Text) (language : Language) :
    Prop where
  /-- It has the extension, in any case. -/
  lists : ∃ listed ∈ language.extensions, listed.lower = extension
  /-- No language after it has the extension. -/
  last : ∃ earlier later, registered history = earlier ++ language :: later ∧
    ∀ other ∈ later, ∀ listed ∈ other.extensions, listed.lower ≠ extension

/-- A registration after a history binds a file name, which is given in lower case, to a language:
the first under the tag by then. Without such a language the registration does not succeed. -/
inductive Binds (history : List Registration) (lowered : Text) :
    Registration → Language → Prop where
  /-- The name is registered, in any case. -/
  | fileName {name tag : Text} {language : Language} (spelled : name.lower = lowered)
    (tagged : FirstTagged history tag language) :
    Binds history lowered (.fileName name tag) language

/-- The last successful registration of a file name has bound it to a language. -/
def LastBound (history : List Registration) (lowered : Text) (language : Language) : Prop :=
  ∃ earlier call later, history = earlier ++ call :: later ∧ Binds earlier lowered call language ∧
    ∀ between next rest, later = between ++ next :: rest →
      ∀ other, ¬ Binds (earlier ++ call :: between) lowered next other

/-- What a history says of a file name in lower case. -/
inductive Finds (history : List Registration) (lowered : Text) : Option Language → Prop where
  /-- The whole name is bound. -/
  | byName {language : Language} (bound : LastBound history lowered language) :
    Finds history lowered (some language)
  /-- The whole name is not bound, and the text after its last full stop is an extension. -/
  | byExtension {language : Language} {stem extension : Text}
    (unbound : ∀ other, ¬ LastBound history lowered other)
    (whole : lowered = stem ++ '.' :: extension) (last : '.' ∉ extension)
    (listed : LastListing history extension language) : Finds history lowered (some language)
  /-- The whole name is not bound, and no text after a last full stop is an extension. -/
  | unknown (unbound : ∀ other, ¬ LastBound history lowered other)
    (unlisted : ∀ stem extension, lowered = stem ++ '.' :: extension → '.' ∉ extension →
      ∀ other, ¬ LastListing history extension other) : Finds history lowered none

section FileName

variable {registry : Registry} {name tag : Text}

/-- A file name for a tag with a language is entered in front of those that are there. -/
theorem registerFileName_of_tagged {language : Language}
    (tagged : registry.tagged? tag = some language) :
    registry.registerFileName name tag =
      { registry with fileNames := (name.lower, language) :: registry.fileNames } := by
  unfold registerFileName registerFileName?
  rw [tagged]
  rfl

/-- A file name for a tag without a language is not entered. -/
theorem registerFileName_of_untagged (untagged : registry.tagged? tag = none) :
    registry.registerFileName name tag = registry := by
  unfold registerFileName registerFileName?
  rw [untagged]
  rfl

/-- Registering a file name adds no language. -/
theorem languages_registerFileName :
    (registry.registerFileName name tag).languages = registry.languages := by
  rcases tagged : registry.tagged? tag with - | language
  · rw [registerFileName_of_untagged tagged]
  · rw [registerFileName_of_tagged tagged]

/-- Registering a file name adds no extension. -/
theorem extensions_registerFileName :
    (registry.registerFileName name tag).extensions = registry.extensions := by
  rcases tagged : registry.tagged? tag with - | language
  · rw [registerFileName_of_untagged tagged]
  · rw [registerFileName_of_tagged tagged]

end FileName

section Step

variable (history : List Registration)

/-- A registration at the end of a history is done last. -/
theorem ofHistory_concat (call : Registration) :
    ofHistory (history ++ [call]) = (ofHistory history).apply call :=
  List.foldl_append

/-- A language that is registered at the end is the last that has been registered. -/
theorem registered_concat_language (language : Language) :
    registered (history ++ [.language language]) = registered history ++ [language] :=
  List.filterMap_append

/-- Registering a file name at the end registers no language. -/
theorem registered_concat_fileName (name tag : Text) :
    registered (history ++ [.fileName name tag]) = registered history :=
  List.filterMap_append.trans (List.append_nil _)

/-- The languages of a registry are those that have been registered. -/
theorem languages_ofHistory : (ofHistory history).languages = registered history := by
  induction history using List.reverseRecOn with
  | nil => rfl
  | append_singleton history call step =>
    rw [ofHistory_concat]
    cases call with
    | language language =>
      rw [registered_concat_language, ← step]
      rfl
    | fileName name tag =>
      rw [registered_concat_fileName, ← step]
      exact languages_registerFileName

/-- The language under a tag is the first that has been registered under it. -/
theorem tagged?_ofHistory {tag : Text} {language : Language} :
    (ofHistory history).tagged? tag = some language ↔ FirstTagged history tag language := by
  unfold tagged?
  rw [languages_ofHistory, List.find?_eq_some_iff_append, decide_eq_true_eq]
  constructor
  · rintro ⟨tagged, earlier, later, whole, absent⟩
    exact ⟨tagged, earlier, later, whole, fun other inside => by simpa using absent other inside⟩
  · rintro ⟨tagged, earlier, later, whole, absent⟩
    exact ⟨tagged, earlier, later, whole, fun other inside => by simpa using absent other inside⟩

/-- A tag has a language exactly when a language has been registered under it. -/
theorem isSome_tagged?_ofHistory {tag : Text} :
    ((ofHistory history).tagged? tag).isSome ↔
      ∃ language ∈ registered history, language.tag = tag := by
  unfold tagged?
  rw [languages_ofHistory, List.find?_isSome]
  simp only [decide_eq_true_eq]

/-- The extensions of a language are entered in front of those that are there. -/
theorem lookup_foldl_extensions (language : Language) (listed : List Text)
    (entries : List (Text × Language)) (extension : Text) :
    (listed.foldl (fun entries name => (name.lower, language) :: entries) entries).lookup
        extension =
      if ∃ name ∈ listed, name.lower = extension then some language
      else entries.lookup extension := by
  induction listed generalizing entries with
  | nil => simp
  | cons name listed step =>
    rw [List.foldl_cons, step, List.lookup_cons]
    by_cases later : ∃ name ∈ listed, name.lower = extension
    · obtain ⟨other, inside, same⟩ := later
      rw [if_pos ⟨other, inside, same⟩, if_pos ⟨other, List.mem_cons_of_mem _ inside, same⟩]
    · by_cases here : name.lower = extension
      · rw [if_neg later, if_pos ⟨name, List.mem_cons_self, here⟩, here, beq_self_eq_true]
      · have different : (extension == name.lower) = false := by
          simpa using fun same : extension = name.lower => here same.symm
        have nowhere : ¬ ∃ other ∈ name :: listed, other.lower = extension := by
          rintro ⟨other, inside, same⟩
          rcases List.mem_cons.mp inside with rfl | inside
          · exact here same
          · exact later ⟨other, inside, same⟩
        rw [if_neg later, if_neg nowhere, different]

/-- The entry of an extension is the last of the languages with it, which is the first in
reverse. -/
theorem lookup_extensions_eq_find? (extension : Text) :
    (ofHistory history).extensions.lookup extension =
      (registered history).reverse.find? fun language =>
        ∃ listed ∈ language.extensions, listed.lower = extension := by
  induction history using List.reverseRecOn with
  | nil => rfl
  | append_singleton history call step =>
    rw [ofHistory_concat]
    cases call with
    | language language =>
      rw [registered_concat_language, List.reverse_append, List.reverse_singleton,
        List.singleton_append, List.find?_cons]
      unfold apply register
      rw [lookup_foldl_extensions, step]
      split
      · next lists => rw [decide_eq_true lists]
      · next unlisted => rw [decide_eq_false unlisted]
    | fileName name tag =>
      rw [registered_concat_fileName, ← step]
      exact congrArg _ extensions_registerFileName

/-- The entry of an extension is the last language that has been registered with it. -/
theorem lookup_extensions_ofHistory {extension : Text} {language : Language} :
    (ofHistory history).extensions.lookup extension = some language ↔
      LastListing history extension language := by
  rw [lookup_extensions_eq_find?, List.find?_eq_some_iff_append, decide_eq_true_eq]
  constructor
  · rintro ⟨lists, later, earlier, whole, absent⟩
    refine ⟨lists, earlier.reverse, later.reverse, ?_, ?_⟩
    · rw [← List.reverse_reverse (registered history), whole]
      simp
    · intro other inside listed among same
      have differs := absent other (List.mem_reverse.mp inside)
      rw [Bool.not_eq_true', decide_eq_false_iff_not] at differs
      exact differs ⟨listed, among, same⟩
  · rintro ⟨lists, earlier, later, whole, absent⟩
    refine ⟨lists, later.reverse, earlier.reverse, by simp [whole], ?_⟩
    intro other inside
    rw [Bool.not_eq_true', decide_eq_false_iff_not]
    rintro ⟨listed, among, same⟩
    exact absent other (List.mem_reverse.mp inside) listed among same

/-- The last successful registration of a name is the last of all, or the last before it. -/
theorem lastBound_concat (call : Registration) {lowered : Text} {language : Language} :
    LastBound (history ++ [call]) lowered language ↔
      Binds history lowered call language ∨
        (∀ other, ¬ Binds history lowered call other) ∧ LastBound history lowered language := by
  constructor
  · rintro ⟨earlier, bound, later, whole, binds, absent⟩
    rcases List.eq_nil_or_concat later with rfl | ⟨between, last, rfl⟩
    · obtain ⟨rfl, same⟩ := List.append_inj' whole rfl
      exact .inl ((List.cons.inj same).1 ▸ binds)
    · rw [List.concat_eq_append, ← List.cons_append, ← List.append_assoc] at whole
      obtain ⟨rfl, same⟩ := List.append_inj' whole rfl
      obtain rfl := (List.cons.inj same).1
      refine .inr ⟨absent between call [] List.concat_eq_append, earlier, bound, between, rfl,
        binds, fun inner next rest within => absent inner next (rest ++ [call]) ?_⟩
      rw [within, List.concat_eq_append, List.append_assoc, List.cons_append]
  · rintro (binds | ⟨unbound, earlier, bound, later, rfl, binds, absent⟩)
    · exact ⟨history, call, [], rfl, binds, fun between next rest none_left =>
        absurd none_left (by simp)⟩
    · refine ⟨earlier, bound, later ++ [call], by simp, binds, ?_⟩
      intro between next rest within
      rcases List.eq_nil_or_concat rest with rfl | ⟨inner, last, rfl⟩
      · obtain ⟨rfl, same⟩ := List.append_inj' within rfl
        obtain rfl := (List.cons.inj same).1
        exact unbound
      · rw [List.concat_eq_append, ← List.cons_append, ← List.append_assoc] at within
        obtain ⟨parts, _⟩ := List.append_inj' within rfl
        exact absent between next inner parts

/-- Registering a file name binds it to the language that the registry has under the tag. -/
theorem binds_fileName_iff {name tag lowered : Text} {language : Language} :
    Binds history lowered (.fileName name tag) language ↔
      name.lower = lowered ∧ (ofHistory history).tagged? tag = some language := by
  rw [tagged?_ofHistory]
  constructor
  · rintro ⟨spelled, tagged⟩
    exact ⟨spelled, tagged⟩
  · exact fun both => .fileName both.1 both.2

/-- The entry of a file name is what the last successful registration has bound it to. -/
theorem lookup_fileNames_ofHistory {lowered : Text} {language : Language} :
    (ofHistory history).fileNames.lookup lowered = some language ↔
      LastBound history lowered language := by
  induction history using List.reverseRecOn with
  | nil =>
    constructor
    · intro found
      cases found
    · rintro ⟨earlier, call, later, whole, -⟩
      exact absurd whole.symm (List.append_ne_nil_of_right_ne_nil _ (List.cons_ne_nil _ _))
  | append_singleton history call step =>
    rw [ofHistory_concat, lastBound_concat, ← step]
    cases call with
    | language registered =>
      have unbound : ∀ other, ¬ Binds history lowered (.language registered) other := nofun
      have kept : ((ofHistory history).apply (.language registered)).fileNames =
          (ofHistory history).fileNames := rfl
      rw [kept]
      exact ⟨fun found => .inr ⟨unbound, found⟩, fun either =>
        (either.resolve_left (unbound language)).2⟩
    | fileName name tag =>
      simp only [binds_fileName_iff]
      rcases tagged : (ofHistory history).tagged? tag with - | found
      · have kept : (ofHistory history).apply (.fileName name tag) = ofHistory history :=
          registerFileName_of_untagged tagged
        simp [kept]
      · have entered : ((ofHistory history).apply (.fileName name tag)).fileNames =
            (name.lower, found) :: (ofHistory history).fileNames :=
          congrArg fileNames (registerFileName_of_tagged tagged)
        rw [entered, List.lookup_cons]
        by_cases spelled : name.lower = lowered
        · simp [spelled]
        · have different : (lowered == name.lower) = false :=
            beq_eq_false_iff_ne.mpr (Ne.symm spelled)
          simp [spelled, different]

end Step

/-- A file name that is bound is found, whatever its extension. -/
theorem resolve?_of_bound {registry : Registry} {name : Text} {language : Language}
    (bound : registry.fileNames.lookup name.lower = some language) :
    registry.resolve? name = some language := by
  unfold resolve?
  simp only [bound]

/-- A file name that is not bound is found by its extension. -/
theorem resolve?_of_unbound {registry : Registry} {name : Text}
    (unbound : registry.fileNames.lookup name.lower = none) :
    registry.resolve? name =
      name.lower.extension?.bind fun extension => registry.extensions.lookup extension := by
  unfold resolve?
  simp only [unbound]

/-- A registry finds for a file name what its history says of the name in lower case. -/
theorem resolve?_eq_iff_finds (history : List Registration) (name : Text)
    (answer : Option Language) :
    (ofHistory history).resolve? name = answer ↔ Finds history name.lower answer := by
  have unbound_iff : (ofHistory history).fileNames.lookup name.lower = none ↔
      ∀ other, ¬ LastBound history name.lower other := by
    simp only [← lookup_fileNames_ofHistory, Option.eq_none_iff_forall_ne_some, ne_eq]
  have unlisted_iff : ∀ extension, (ofHistory history).extensions.lookup extension = none ↔
      ∀ other, ¬ LastListing history extension other := by
    intro extension
    simp only [← lookup_extensions_ofHistory, Option.eq_none_iff_forall_ne_some, ne_eq]
  constructor
  · rintro rfl
    rcases bound : (ofHistory history).fileNames.lookup name.lower with - | language
    · have unbound := unbound_iff.mp bound
      rw [resolve?_of_unbound bound]
      rcases found : name.lower.extension?.bind fun extension =>
        (ofHistory history).extensions.lookup extension with - | language
      · refine .unknown unbound fun stem extension whole last => (unlisted_iff extension).mp ?_
        exact Option.bind_eq_none_iff.mp found extension
          (Text.extension?_eq_some_iff.mpr ⟨stem, whole, last⟩)
      · obtain ⟨extension, named, listed⟩ := Option.bind_eq_some_iff.mp found
        obtain ⟨stem, whole, last⟩ := Text.extension?_eq_some_iff.mp named
        exact .byExtension unbound whole last ((lookup_extensions_ofHistory history).mp listed)
    · rw [resolve?_of_bound bound]
      exact .byName ((lookup_fileNames_ofHistory history).mp bound)
  · rintro (bound | ⟨unbound, whole, last, listed⟩ | ⟨unbound, unlisted⟩)
    · exact resolve?_of_bound ((lookup_fileNames_ofHistory history).mpr bound)
    · rw [resolve?_of_unbound (unbound_iff.mpr unbound),
        Text.extension?_eq_some_iff.mpr ⟨_, whole, last⟩]
      exact (lookup_extensions_ofHistory history).mpr listed
    · rw [resolve?_of_unbound (unbound_iff.mpr unbound), Option.bind_eq_none_iff]
      intro extension named
      obtain ⟨stem, whole, last⟩ := Text.extension?_eq_some_iff.mp named
      exact (unlisted_iff extension).mpr (unlisted stem extension whole last)

/-- The registrations of the standard registry. -/
def standardHistory : List Registration :=
  standardLanguages.map .language ++
    standardFileNames.map fun entry => .fileName entry.1.toList entry.2.toList

/-- The registry that the census starts with is made by registrations. -/
theorem standard_eq_ofHistory : standard = ofHistory standardHistory := by
  unfold standard ofHistory standardHistory ofLanguages
  rw [List.foldl_append, List.foldl_map, List.foldl_map]
  rfl

end Registry

end LineCensus
