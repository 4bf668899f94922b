/-!
# Effort, schedule and cost

The Basic COCOMO model estimates the effort to write a program from its thousands of source
lines, and the schedule from the effort. The number of developers is the effort over the
schedule, and the cost is the effort at a salary with an overhead. The model is computed in
doubles, each operation in the order in which it is written here.
-/
namespace LineCensus

/-- What it takes to write a program. -/
structure Estimate where
  /-- The effort in months of one person. -/
  personMonths : Float
  /-- The duration in months. -/
  scheduleMonths : Float
  /-- The average number of developers. -/
  developers : Float
  /-- The cost in dollars. -/
  cost : Float

namespace Estimate

/-- Person-months for a thousand lines. -/
def effortCoefficient : Float := 2.4

/-- The exponent of the thousands of lines. -/
def effortExponent : Float := 1.05

/-- Months for one person-month. -/
def scheduleCoefficient : Float := 2.5

/-- The exponent of the person-months. -/
def scheduleExponent : Float := 0.38

/-- Dollars for twelve person-months. -/
def annualSalary : Float := 56286.0

/-- What everything beside the salary multiplies it by. -/
def overhead : Float := 2.4

/-- Months in a year. -/
def monthsPerYear : Float := 12.0

/-- The effort in years of one person. -/
def personYears (estimate : Estimate) : Float := estimate.personMonths / monthsPerYear

/-- The duration in years. -/
def scheduleYears (estimate : Estimate) : Float := estimate.scheduleMonths / monthsPerYear

/-- The estimate for a number of source lines. -/
def ofSourceLines (lines : Nat) : Estimate :=
  let thousands := Float.ofNat lines / 1000.0
  let personMonths := effortCoefficient * thousands.pow effortExponent
  let scheduleMonths := scheduleCoefficient * personMonths.pow scheduleExponent
  { personMonths
    scheduleMonths
    developers := if scheduleMonths > 0.0 then personMonths / scheduleMonths else 0.0
    cost := personMonths * annualSalary * overhead }

end Estimate

end LineCensus
