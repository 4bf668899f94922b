import LineCensus.Text.Basic

/-!
# JSON values

The values of the JSON format as the census writes them. Objects keep the order of their
members, and whole numbers are kept apart from doubles because they are written differently.
-/
namespace LineCensus

/-- A JSON value. -/
inductive Json where
  /-- The null value. -/
  | null
  /-- A truth value. -/
  | boolean (value : Bool)
  /-- A whole number. -/
  | natural (value : Nat)
  /-- A double, which is null when it is not a number or infinite. -/
  | real (value : Float)
  /-- A string. -/
  | string (value : Text)
  /-- An array. -/
  | array (items : List Json)
  /-- An object, its members in order. -/
  | object (members : List (Text × Json))

end LineCensus
