import LintPatrol.Number.Binary64

/-!
# LintPatrol.Json.Value

JSON values.  A number keeps whether it was written as an integer that fits
64 bits, because a field that wants an integer takes no other number.  An
object is the list of its members in the order written; where a name occurs
twice the last member counts.
-/

namespace LintPatrol

open Number

/-- A JSON value. -/
inductive Json where
  | null
  | bool (b : Bool)
  | int (n : Int)
  | float (x : Binary64)
  | str (s : String)
  | arr (items : List Json)
  | obj (members : List (String × Json))
deriving Repr, Inhabited

namespace Json

def member? (name : String) (members : List (String × Json)) : Option Json :=
  (members.reverse.find? (·.1 == name)).map (·.2)

/-- The member of that name, if the value is an object that has one. -/
def field? (name : String) : Json → Option Json
  | obj members => member? name members
  | _ => none

/-- The string, if the value is one. -/
def str? : Json → Option String
  | str s => some s
  | _ => none

/-- The integer, if the value is one. -/
def int? : Json → Option Int
  | int n => some n
  | _ => none

/-- The truth value, if the value is one. -/
def bool? : Json → Option Bool
  | bool b => some b
  | _ => none

/-- The items, if the value is an array. -/
def arr? : Json → Option (List Json)
  | arr items => some items
  | _ => none

/-- A string, or `null`. -/
def ofStr? : Option String → Json
  | some s => str s
  | none => null

/-- An integer, or `null`. -/
def ofInt? : Option Int → Json
  | some n => int n
  | none => null

end Json

end LintPatrol
