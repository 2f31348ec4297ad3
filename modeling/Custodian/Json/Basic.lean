/-!
# JSON values

Integers and doubles are told apart: a number without point and exponent is an integer as
long as it fits 64 bits, with or without a sign bit. Objects keep their fields in the order
they were given in.
-/

namespace Custodian

/-- A JSON value. -/
inductive Json where
  | null
  | bool (value : Bool)
  | int (value : Int)
  | real (value : Float)
  | str (value : String)
  | arr (items : List Json)
  | obj (fields : List (String × Json))

namespace Json

/-- The value of a field of an object; of equally named fields, that of the last. -/
def field? (name : String) : Json → Option Json
  | obj fields => fields.reverse.lookup name
  | _ => none

/-- The text, if the value is one. -/
def str? : Json → Option String
  | str s => some s
  | _ => none

/-- The truth value, if the value is one. -/
def bool? : Json → Option Bool
  | bool b => some b
  | _ => none

/-- The integer, if the value is one between `lo` and `hi`. -/
def int? (lo hi : Int) : Json → Option Int
  | int n => if lo ≤ n ∧ n ≤ hi then some n else none
  | _ => none

/-- The items, if the value is a list. -/
def arr? : Json → Option (List Json)
  | arr items => some items
  | _ => none

/-- The fields, if the value is an object. -/
def obj? : Json → Option (List (String × Json))
  | obj fields => some fields
  | _ => none

end Json

end Custodian
