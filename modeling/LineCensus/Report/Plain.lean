import LineCensus.Report.Basic
import LineCensus.Decimal.Places

/-!
# Reports as text

The text report has the table of the directories, the table of the languages, the estimate
and a credit. Columns have a least width, counted in characters, and grow with what they
hold. Some of the parts may be painted for a terminal; painting a part puts one sequence of
characters before it and one after it, and changes nothing else.
-/
namespace LineCensus

/-- How a part of the report is set off on a terminal. -/
inductive Paint where
  /-- Headings. -/
  | bold
  /-- The total. -/
  | green
  /-- Rows without languages. -/
  | yellow
  /-- The tags of languages. -/
  | cyan
  deriving DecidableEq, Repr

namespace Paint

/-- The control sequence that sets a rendition of the terminal. -/
def sequence (code : String) : Text := '\u001B' :: '[' :: code.toList ++ ['m']

/-- The sequence before a painted part. -/
def opening : Paint → Text
  | bold => sequence "1"
  | green => sequence "32"
  | yellow => sequence "33"
  | cyan => sequence "36"

/-- The sequence after a painted part. -/
def closing : Text := sequence "0"

/-- A part of the report, painted when the report has colour. -/
def apply (paint : Paint) (colour : Bool) (part : Text) : Text :=
  if colour then paint.opening ++ part ++ closing else part

end Paint

namespace LanguageCount

/-- Languages with their lines in one row. -/
def joined (languages : List LanguageCount) : Text :=
  List.intercalate ", ".toList
    (languages.map fun entry => entry.language ++ '=' :: decimalText entry.lines)

end LanguageCount

namespace DirectoryRow

/-- The line of a directory. -/
def line (colour : Bool) (row : DirectoryRow) : Text :=
  (decimalText row.total).padRight 8 ++ row.directory.padRight 16 ++
    if row.languages = [] then Paint.yellow.apply colour "(none)".toList
    else LanguageCount.joined row.languages

end DirectoryRow

namespace LanguageRow

/-- The line of a language. -/
def line (colour : Bool) (row : LanguageRow) : Text :=
  Paint.cyan.apply colour (row.language.padRight 13) ++ (decimalText row.lines).padLeft 7
    ++ " (".toList ++ (Double.ofFloat row.percent).twoPlaces ++ "%)".toList

end LanguageRow

namespace Report

/-- A double of the report with two places. -/
def amount (value : Float) : Text := (Double.ofFloat value).twoPlaces

/-- A sum of money in whole dollars. -/
def dollars (value : Float) : Text := groupThousands (Double.ofFloat value).wholeWord

/-- The lines of the estimate. -/
def estimateLines (colour : Bool) (report : Report) : List Text :=
  let estimate := report.estimate
  ["Total Physical Source Lines of Code (SLOC)                = ".toList
      ++ Paint.green.apply colour (groupThousands report.totalLines),
    "Development Effort Estimate, Person-Years (Person-Months) = ".toList
      ++ amount estimate.personYears ++ " (".toList ++ amount estimate.personMonths ++ [')'],
    " (Basic COCOMO model, Person-Months = 2.4 * (KSLOC**1.05))".toList,
    "Schedule Estimate, Years (Months)                         = ".toList
      ++ amount estimate.scheduleYears ++ " (".toList ++ amount estimate.scheduleMonths
      ++ [')'],
    " (Basic COCOMO model, Months = 2.5 * (person-months**0.38))".toList,
    "Estimated Average Number of Developers (Effort/Schedule)  = ".toList
      ++ amount estimate.developers,
    "Total Estimated Cost to Develop                           = $ ".toList
      ++ dollars estimate.cost,
    " (average salary = $".toList ++ dollars Estimate.annualSalary
      ++ "/year, overhead = ".toList ++ amount Estimate.overhead ++ ").".toList]

/-- The credit at the end of the report. -/
def creditLines : List Text :=
  ["SLOCCount, Copyright (C) 2001-2004 David A. Wheeler".toList,
    "SLOCCount is Open Source Software/Free Software, licensed under the GNU GPL.".toList,
    ("Please credit this data as \x22generated using David A. Wheeler\x27s " ++
      "\x27SLOCCount\x27.\x22").toList]

/-- The lines of the report. -/
def plainLines (colour : Bool) (report : Report) : List Text :=
  ["Computing results.".toList, [],
    Paint.bold.apply colour "SLOC\tDirectory\tSLOC-by-Language (Sorted)".toList]
  ++ report.directories.map (DirectoryRow.line colour)
  ++ [[], [],
    Paint.bold.apply colour "Totals grouped by language (dominant language first):".toList]
  ++ report.languages.map (LanguageRow.line colour)
  ++ [[], []]
  ++ report.estimateLines colour
  ++ [[]]
  ++ creditLines

/-- The report as text, each of its lines ended. -/
def plain (colour : Bool) (report : Report) : Text :=
  (report.plainLines colour).flatMap fun line => line ++ ['\n']

end Report

end LineCensus
