/-! # JSON values

The values of JSON. Integers are kept apart from all other numbers, which are kept as they are written.
-/

namespace ScriptMachine

/-- A JSON value. -/
inductive Json where
  /-- The null value. -/
  | null
  /-- A truth value. -/
  | boolean (value : Bool)
  /-- A number without fraction, exponent and negative zero. -/
  | integer (value : Int)
  /-- Any other number, as it is written. -/
  | real (numeral : String)
  /-- A text. -/
  | text (value : String)
  /-- A list of values. -/
  | list (items : List Json)
  /-- Values by name, in the order of writing. -/
  | object (fields : List (String × Json))
  deriving Repr, Inhabited

namespace Json

/-- The integer value of a size or count. -/
def ofNat (n : Nat) : Json := .integer n

/-- The value under a name; the last one counts, and nothing else but an object has any. -/
def get? (j : Json) (name : String) : Option Json :=
  match j with
  | .object fields => (fields.reverse.find? fun field => field.1 == name).map (·.2)
  | _ => none

/-- The value under a name, or null. -/
def get (j : Json) (name : String) : Json := (j.get? name).getD .null

/-- The items of a list; nothing else has any. -/
def items : Json → List Json
  | .list items => items
  | _ => []

end Json

end ScriptMachine
