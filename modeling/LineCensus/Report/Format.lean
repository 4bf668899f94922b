import LineCensus.Report.Plain
import LineCensus.Report.Structured
import LineCensus.Text.LowerCase

/-!
# Formats of reports

A report is written as text or as JSON. A format is chosen by name, without regard to case,
and colour by one of three choices, the middle one of which asks whether the output is a
terminal and whether colour is unwanted there.
-/
namespace LineCensus

/-- How a report is written. -/
inductive ReportFormat where
  /-- Tables for people. -/
  | plain
  /-- JSON for programs. -/
  | structured
  deriving DecidableEq, Repr, Inhabited

namespace ReportFormat

/-- The format with the given name. -/
def ofName? (name : Text) : Option ReportFormat :=
  let lowered := name.lower
  if lowered = "text".toList ∨ lowered = "txt".toList then some .plain
  else if lowered = "json".toList then some .structured
  else none

/-- What is said of a name without a format. -/
def unknownMessage (name : Text) : Text := "Unknown output format: ".toList ++ name

end ReportFormat

/-- When a text report has colour. -/
inductive ColourChoice where
  /-- On a terminal, unless colour is unwanted. -/
  | automatic
  /-- In every case. -/
  | always
  /-- In no case. -/
  | never
  deriving DecidableEq, Repr, Inhabited

/-- What a report is written to. -/
structure Display where
  /-- The output is a terminal. -/
  terminal : Bool := false
  /-- The user has asked for output without colour. -/
  colourUnwanted : Bool := false
  deriving DecidableEq, Repr, Inhabited

namespace ColourChoice

/-- A text report on a display has colour. -/
def onDisplay (choice : ColourChoice) (display : Display) : Bool :=
  match choice with
  | automatic => !display.colourUnwanted && display.terminal
  | always => true
  | never => false

end ColourChoice

namespace Report

/-- A report in a format. JSON has no colour. -/
def render (format : ReportFormat) (colour : Bool) (report : Report) : Text :=
  match format with
  | .plain => report.plain colour
  | .structured => report.structured

end Report

end LineCensus
