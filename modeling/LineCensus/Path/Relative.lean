import LineCensus.Path.Basic

/-!
# Names of directories in reports

A report names a directory by its path below the directory that is counted, with slashes
whichever way they were spelled, and the counted directory itself by a name of its own. A
directory that is not below the counted one keeps its path.
-/
namespace LineCensus

/-- The name of the counted directory in reports. -/
def topDirectory : Text := "top_dir".toList

namespace Text

/-- A text with each backslash turned into a slash. -/
def withSlashes (text : Text) : Text := text.map fun char => if char = '\\' then '/' else char

end Text

namespace Path

/-- The name of a directory in the report on a root. -/
def reportName (directory root : Path) : Text :=
  let relative := ((directory.under? root).getD directory).text.withSlashes
  if relative = [] ∨ relative = ['.'] then topDirectory else relative

end Path

end LineCensus
