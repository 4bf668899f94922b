import LineCensus.Proofs.Registry.History
import Mathlib.Logic.Function.Basic

/-!
# Registries of places

A registry can hold each language once, in one growing list, and enter places of the list in its
tables instead of the languages. Such a registry fails when it comes to a place past the end of the
list. It never does: languages are only added at the end, so a place that has been entered keeps its
language (`PlaceRegistry.PointsTo.grow`), and both kinds of registries find the same languages after
the same registrations (`PlaceRegistry.Represents`).

What a history says of a registry is brought together in `Registry.keepsHistory`.
-/
namespace LineCensus

/-- A place at which there is no language. -/
structure OutOfRange where
  /-- The place. -/
  place : Nat
  deriving DecidableEq, Repr

/-- A registry whose tables hold places in the list of its languages. -/
structure PlaceRegistry where
  /-- The languages, in the order of registration. -/
  languages : List Language := []
  /-- The places of lower-cased extensions. -/
  extensions : Text → Option Nat := fun _ => none
  /-- The places of lower-cased whole file names. -/
  fileNames : Text → Option Nat := fun _ => none

namespace PlaceRegistry

/-- Enters the place of a key. -/
def enter (place : Nat) (table : Text → Option Nat) (key : Text) : Text → Option Nat :=
  Function.update table key (some place)

/-- Adds a language at the end, and its place under each of its extensions. -/
def register (registry : PlaceRegistry) (language : Language) : PlaceRegistry where
  languages := registry.languages ++ [language]
  extensions :=
    (language.extensions.map Text.lower).foldl (enter registry.languages.length) registry.extensions
  fileNames := registry.fileNames

/-- Enters the place of the first language under a tag for a whole file name, or nothing when there
is no such language. -/
def registerFileName? (registry : PlaceRegistry) (name tag : Text) : Option PlaceRegistry :=
  (registry.languages.findIdx? (·.tag = tag)).map fun place =>
    { registry with fileNames := enter place registry.fileNames name.lower }

/-- Registers a language or a file name. -/
def apply (registry : PlaceRegistry) : Registration → PlaceRegistry
  | .language language => registry.register language
  | .fileName name tag => (registry.registerFileName? name tag).getD registry

/-- The registry that registrations make of the empty one. -/
def ofHistory (history : List Registration) : PlaceRegistry := history.foldl apply {}

/-- The language at a place. -/
def languageAt (registry : PlaceRegistry) (place : Nat) : Except OutOfRange Language :=
  match registry.languages[place]? with
  | some language => .ok language
  | none => .error ⟨place⟩

/-- The language of a file with the given name. -/
def resolve? (registry : PlaceRegistry) (name : Text) : Except OutOfRange (Option Language) :=
  match registry.fileNames name.lower with
  | some place => some <$> registry.languageAt place
  | none =>
    match name.lower.extension?.bind registry.extensions with
    | some place => some <$> registry.languageAt place
    | none => .ok none

/-- The places in a table are places of languages, and they are those of the entries. -/
structure PointsTo (languages : List Language) (table : Text → Option Nat)
    (entries : List (Text × Language)) : Prop where
  /-- There is a language at every place. -/
  inRange : ∀ key place, table key = some place → place < languages.length
  /-- The language at the place of a key is the entry of the key. -/
  lookup_eq : ∀ key, entries.lookup key = (table key).bind fun place => languages[place]?

section PointsTo

variable {languages : List Language} {table : Text → Option Nat} {entries : List (Text × Language)}

/-- More languages at the end leave the places what they are. -/
theorem PointsTo.grow (points : PointsTo languages table entries) (more : List Language) :
    PointsTo (languages ++ more) table entries := by
  constructor
  case inRange =>
    intro key place entered
    have inside := points.inRange key place entered
    rw [List.length_append]
    omega
  case lookup_eq =>
    intro key
    rw [points.lookup_eq key]
    rcases entered : table key with - | place
    · rfl
    · exact (List.getElem?_append_left (points.inRange key place entered)).symm

/-- The place of a language may be entered for a key. -/
theorem PointsTo.enter (points : PointsTo languages table entries) {place : Nat}
    {language : Language} (here : languages[place]? = some language) (key : Text) :
    PointsTo languages (enter place table key) ((key, language) :: entries) := by
  unfold PlaceRegistry.enter
  constructor
  case inRange =>
    intro other found entered
    by_cases same : other = key
    · rw [same, Function.update_self] at entered
      cases entered
      exact (List.getElem?_eq_some_iff.mp here).1
    · rw [Function.update_of_ne same] at entered
      exact points.inRange other found entered
  case lookup_eq =>
    intro other
    rw [List.lookup_cons]
    by_cases same : other = key
    · rw [same, Function.update_self, beq_self_eq_true]
      exact here.symm
    · rw [Function.update_of_ne same, beq_eq_false_iff_ne.mpr same]
      exact points.lookup_eq other

/-- The place of a language may be entered for any number of keys. -/
theorem PointsTo.enterAll (points : PointsTo languages table entries) {place : Nat}
    {language : Language} (here : languages[place]? = some language) (keys : List Text) :
    PointsTo languages (keys.foldl (PlaceRegistry.enter place) table)
      (keys.foldl (fun entries key => (key, language) :: entries) entries) := by
  induction keys generalizing table entries with
  | nil => exact points
  | cons key keys step => exact step (points.enter here key)

end PointsTo

/-- A registry of places holds the same as a registry of languages. -/
structure Represents (places : PlaceRegistry) (registry : Registry) : Prop where
  /-- The languages are the same. -/
  languages_eq : places.languages = registry.languages
  /-- The places of extensions are those of their languages. -/
  extensions : PointsTo places.languages places.extensions registry.extensions
  /-- The places of file names are those of their languages. -/
  fileNames : PointsTo places.languages places.fileNames registry.fileNames

section Represents

variable {places : PlaceRegistry} {registry : Registry}

/-- Both registries hold the same after a language has been registered. -/
theorem Represents.register (represents : Represents places registry) (language : Language) :
    Represents (places.register language) (registry.register language) := by
  have here : (places.languages ++ [language])[places.languages.length]? = some language := by simp
  constructor
  case languages_eq => exact congrArg (· ++ [language]) represents.languages_eq
  case extensions =>
    have entered := (represents.extensions.grow [language]).enterAll here
      (language.extensions.map Text.lower)
    rw [List.foldl_map (f := Text.lower) (g := fun entries key => (key, language) :: entries)]
      at entered
    exact entered
  case fileNames => exact represents.fileNames.grow [language]

/-- The language under a tag is the one at the place where the tag is found. -/
theorem Represents.tagged?_eq (represents : Represents places registry) (tag : Text) :
    registry.tagged? tag = (places.languages.findIdx? (·.tag = tag)).bind
      fun place => places.languages[place]? := by
  unfold Registry.tagged?
  rw [← represents.languages_eq, List.find?_eq_bind_findIdx?_getElem?]

/-- Both registries take a file name or refuse it, and hold the same after it. -/
theorem Represents.registerFileName (represents : Represents places registry) (name tag : Text) :
    (places.registerFileName? name tag).isSome = (registry.registerFileName? name tag).isSome ∧
      Represents ((places.registerFileName? name tag).getD places)
        (registry.registerFileName name tag) := by
  have tagged := represents.tagged?_eq tag
  unfold registerFileName?
  rcases found : places.languages.findIdx? (·.tag = tag) with - | place
  · rw [found, Option.bind_none] at tagged
    rw [found, Registry.registerFileName_of_untagged tagged]
    unfold Registry.registerFileName?
    rw [tagged]
    exact ⟨rfl, represents⟩
  · obtain ⟨inside, -⟩ := List.findIdx?_eq_some_iff_getElem.mp found
    have here : places.languages[place]? = some places.languages[place] :=
      List.getElem?_eq_getElem inside
    rw [found, Option.bind_some, here] at tagged
    rw [found, Registry.registerFileName_of_tagged tagged]
    unfold Registry.registerFileName?
    rw [tagged]
    exact ⟨rfl, represents.languages_eq, represents.extensions,
      represents.fileNames.enter here name.lower⟩

/-- Both registries hold the same after a registration. -/
theorem Represents.apply (represents : Represents places registry) (call : Registration) :
    Represents (places.apply call) (registry.apply call) := by
  cases call with
  | language language => exact represents.register language
  | fileName name tag => exact (represents.registerFileName name tag).2

/-- Both registries hold the same after the same registrations. -/
theorem represents_ofHistory (history : List Registration) :
    Represents (ofHistory history) (Registry.ofHistory history) := by
  have run : ∀ {places : PlaceRegistry} {registry : Registry}, Represents places registry →
      Represents (history.foldl PlaceRegistry.apply places)
        (history.foldl Registry.apply registry) := by
    induction history with
    | nil => exact id
    | cons call history step => exact fun represents => step (represents.apply call)
  have nothing : PointsTo [] (fun _ => none) [] := ⟨nofun, fun _ => rfl⟩
  exact run ⟨rfl, nothing, nothing⟩

/-- Every place in a table has the language of its entry. -/
theorem PointsTo.languageAt (points : PointsTo places.languages table entries) {key : Text}
    {place : Nat} (entered : table key = some place) :
    ∃ language, places.languageAt place = .ok language ∧ entries.lookup key = some language := by
  have inside := points.inRange key place entered
  have here : places.languages[place]? = some places.languages[place] :=
    List.getElem?_eq_getElem inside
  refine ⟨places.languages[place], ?_, ?_⟩
  · unfold PlaceRegistry.languageAt
    rw [here]
  · rw [points.lookup_eq, entered, Option.bind_some, here]

/-- A key without a place has no entry. -/
theorem PointsTo.lookup_eq_none (points : PointsTo places.languages table entries) {key : Text}
    (missing : table key = none) : entries.lookup key = none := by
  rw [points.lookup_eq, missing, Option.bind_none]

/-- A registry of places finds what the registry of languages does, and does not fail. -/
theorem Represents.resolve?_eq (represents : Represents places registry) (name : Text) :
    places.resolve? name = .ok (registry.resolve? name) := by
  unfold resolve?
  rcases bound : places.fileNames name.lower with - | place
  · rw [Registry.resolve?_of_unbound (represents.fileNames.lookup_eq_none bound)]
    rcases name.lower.extension? with - | extension
    · rfl
    · simp only [Option.bind_some]
      rcases listed : places.extensions extension with - | place
      · rw [represents.extensions.lookup_eq_none listed]
      · obtain ⟨language, found, entry⟩ := represents.extensions.languageAt listed
        rw [entry]
        simp only [found]
        rfl
  · obtain ⟨language, found, entry⟩ := represents.fileNames.languageAt bound
    rw [Registry.resolve?_of_bound entry]
    simp only [found]
    rfl

end Represents

end PlaceRegistry

namespace Registry

/-- A registry keeps what has been registered, and nothing else. -/
structure KeepsHistory (history : List Registration) : Prop where
  /-- It finds for every file name what the history says of the name in lower case. -/
  finds : ∀ name answer,
    (ofHistory history).resolve? name = answer ↔ Finds history name.lower answer
  /-- It takes another file name exactly when a language has been registered under the tag. -/
  accepts : ∀ name tag, ((ofHistory history).registerFileName? name tag).isSome ↔
    ∃ language ∈ registered history, language.tag = tag
  /-- A file name that it refuses does not matter to what is found later, whatever else is
  registered. -/
  refuses : ∀ name tag, (ofHistory history).registerFileName? name tag = none →
    ∀ later other, (ofHistory (history ++ .fileName name tag :: later)).resolve? other =
      (ofHistory (history ++ later)).resolve? other
  /-- With places for languages, every place of an extension is that of a language. -/
  extensionsInRange : ∀ extension place,
    (PlaceRegistry.ofHistory history).extensions extension = some place →
      place < (PlaceRegistry.ofHistory history).languages.length
  /-- So is every place of a file name. -/
  fileNamesInRange : ∀ name place,
    (PlaceRegistry.ofHistory history).fileNames name = some place →
      place < (PlaceRegistry.ofHistory history).languages.length
  /-- With places for languages, the same file names are taken. -/
  acceptsPlace : ∀ name tag, ((PlaceRegistry.ofHistory history).registerFileName? name tag).isSome =
    ((ofHistory history).registerFileName? name tag).isSome
  /-- With places for languages, nothing fails, and the same is found. -/
  findsPlace : ∀ name, (PlaceRegistry.ofHistory history).resolve? name =
    .ok ((ofHistory history).resolve? name)

/-- Every registry that registrations make of the empty one keeps them: the last successful
registration of a file name decides, then the last language with the extension, and a refused file
name changes nothing. Places for languages are always in range. -/
theorem keepsHistory (history : List Registration) : KeepsHistory history := by
  have represents := PlaceRegistry.represents_ofHistory history
  constructor
  case finds => exact resolve?_eq_iff_finds history
  case accepts =>
    intro name tag
    unfold registerFileName?
    rw [Option.isSome_map]
    exact isSome_tagged?_ofHistory history
  case refuses =>
    intro name tag refused later other
    have untagged : (ofHistory history).tagged? tag = none := Option.map_eq_none_iff.mp refused
    have kept : (ofHistory history).apply (.fileName name tag) = ofHistory history :=
      registerFileName_of_untagged untagged
    unfold ofHistory at kept ⊢
    rw [List.foldl_append, List.foldl_append, List.foldl_cons, kept]
  case extensionsInRange => exact represents.extensions.inRange
  case fileNamesInRange => exact represents.fileNames.inRange
  case acceptsPlace => exact fun name tag => (represents.registerFileName name tag).1
  case findsPlace => exact represents.resolve?_eq

-- a file name stays bound to the first language under its tag when that tag is registered again
example : (ofHistory [.language (Language.ofTag .hash "sh"), .fileName "Build".toList "sh".toList,
    .language (Language.ofTag .slashes "sh")]).resolve? "BUILD".toList =
      some (Language.ofTag .hash "sh") := by
  decide +kernel

end Registry

end LineCensus
