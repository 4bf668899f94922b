import LineCensus.Report.Basic
import LineCensus.Json.Printer

/-!
# Reports as JSON

The JSON report holds the two tables, the total and the estimate under fixed names, in a
fixed order.
-/
namespace LineCensus

namespace LanguageCount

/-- A language of a directory as JSON. -/
def toJson (entry : LanguageCount) : Json :=
  .object [("language".toList, .string entry.language), ("lines".toList, .natural entry.lines)]

end LanguageCount

namespace DirectoryRow

/-- The row of a directory as JSON. -/
def toJson (row : DirectoryRow) : Json :=
  .object [("directory".toList, .string row.directory), ("total".toList, .natural row.total),
    ("languages".toList, .array (row.languages.map LanguageCount.toJson))]

end DirectoryRow

namespace LanguageRow

/-- The row of a language as JSON. -/
def toJson (row : LanguageRow) : Json :=
  .object [("language".toList, .string row.language), ("lines".toList, .natural row.lines),
    ("percent".toList, .real row.percent)]

end LanguageRow

namespace Estimate

/-- An estimate as JSON. -/
def toJson (estimate : Estimate) : Json :=
  .object [("person_months".toList, .real estimate.personMonths),
    ("person_years".toList, .real estimate.personYears),
    ("schedule_months".toList, .real estimate.scheduleMonths),
    ("schedule_years".toList, .real estimate.scheduleYears),
    ("developers".toList, .real estimate.developers),
    ("cost".toList, .real estimate.cost)]

end Estimate

namespace Report

/-- A report as JSON. -/
def toJson (report : Report) : Json :=
  .object [("directories".toList, .array (report.directories.map DirectoryRow.toJson)),
    ("languages".toList, .array (report.languages.map LanguageRow.toJson)),
    ("total_sloc".toList, .natural report.totalLines),
    ("cocomo".toList, report.estimate.toJson)]

/-- The JSON report as text, without a line end. -/
def structured (report : Report) : Text := report.toJson.text

end Report

end LineCensus
