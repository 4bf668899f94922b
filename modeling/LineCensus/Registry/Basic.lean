import LineCensus.Language
import LineCensus.Text.LowerCase

/-!
# Registries of languages

A registry finds the language of a file by its name, without regard to case. Names that are
registered as a whole go first, and only then the extension after the last full stop. Of two
entries for the same name or the same extension the later one holds; a whole name is bound to
the first language registered under the tag at that time, and stays bound to it.
-/
namespace LineCensus

namespace Text

/-- The text after the last full stop, if there is one. -/
def extension? (name : Text) : Option Text :=
  if '.' ∈ name then some (name.reverse.takeWhile (· ≠ '.')).reverse else none

end Text

/-- Languages and the names by which their files are found. -/
structure Registry where
  /-- The languages, in the order of registration. -/
  languages : List Language := []
  /-- Lower-cased extensions with their languages, the latest first. -/
  extensions : List (Text × Language) := []
  /-- Lower-cased whole file names with their languages, the latest first. -/
  fileNames : List (Text × Language) := []
  deriving DecidableEq, Repr, Inhabited

namespace Registry

/-- Adds a language under each of its extensions. -/
def register (registry : Registry) (language : Language) : Registry where
  languages := registry.languages ++ [language]
  extensions :=
    language.extensions.foldl (fun entries extension => (extension.lower, language) :: entries)
      registry.extensions
  fileNames := registry.fileNames

/-- The first language registered under a tag. -/
def tagged? (registry : Registry) (tag : Text) : Option Language :=
  registry.languages.find? (·.tag = tag)

/-- Adds a whole file name for the first language under a tag, or nothing when there is no
such language. -/
def registerFileName? (registry : Registry) (name tag : Text) : Option Registry :=
  (registry.tagged? tag).map fun language =>
    { registry with fileNames := (name.lower, language) :: registry.fileNames }

/-- Adds a whole file name for the first language under a tag, if there is one. -/
def registerFileName (registry : Registry) (name tag : Text) : Registry :=
  (registry.registerFileName? name tag).getD registry

/-- The language of a file with the given name. -/
def resolve? (registry : Registry) (name : Text) : Option Language :=
  let lowered := name.lower
  match registry.fileNames.lookup lowered with
  | some language => some language
  | none => lowered.extension?.bind fun extension => registry.extensions.lookup extension

/-- A registry of languages in order. -/
def ofLanguages (languages : List Language) : Registry :=
  languages.foldl register {}

end Registry

end LineCensus
