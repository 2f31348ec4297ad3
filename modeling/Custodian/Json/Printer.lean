import Custodian.Double.Text
import Custodian.Json.Basic

/-!
# Writing JSON

The *indented* form puts every item and every field on a line of its own, two blanks deeper
than what holds it; an empty list or object stays `[]` or `{}`. The *compact* form has no
blanks and no line breaks. Strings escape the quote, the backslash and control characters
and nothing else.
-/

namespace Custodian.Json

/-! ## Scalars -/

/-- A hexadecimal digit. -/
def hexDigit (n : Nat) : Char := (Nat.toDigits 16 (n % 16)).headD '0'

/-- A character inside a string. -/
def escapeChar (c : Char) : String :=
  if c = '"' then "\\\""
  else if c = '\\' then "\\\\"
  else if c = '\n' then "\\n"
  else if c = '\r' then "\\r"
  else if c = '\t' then "\\t"
  else if c.toNat = 8 then "\\b"
  else if c.toNat = 12 then "\\f"
  else if c.toNat < 32 then
    String.ofList ['\\', 'u', '0', '0', hexDigit (c.toNat / 16), hexDigit c.toNat]
  else String.singleton c

/-- A string with its quotes. -/
def quoted (s : String) : String :=
  "\"" ++ String.join (s.toList.map escapeChar) ++ "\""

/-- The text of a value that holds no others; empty for lists and objects. -/
def scalarText : Json → String
  | null => "null"
  | bool b => if b then "true" else "false"
  | int n => toString n
  | real x => Double.reportText x
  | str s => quoted s
  | arr _ => ""
  | obj _ => ""

/-! ## The indented form -/

/-- A line break and `depth` steps of indentation. -/
def newline (depth : Nat) : String := String.ofList ('\n' :: List.replicate (2 * depth) ' ')

mutual

/-- The indented form of a value that stands at the given depth. -/
def indented (depth : Nat) : Json → String
  | arr [] => "[]"
  | arr (item :: rest) =>
    "[" ++ newline (depth + 1) ++ indented (depth + 1) item ++
      indentedItems (depth + 1) rest ++ newline depth ++ "]"
  | obj [] => "\x7b\x7d"
  | obj ((name, value) :: rest) =>
    "\x7b" ++ newline (depth + 1) ++ quoted name ++ ": " ++ indented (depth + 1) value ++
      indentedFields (depth + 1) rest ++ newline depth ++ "\x7d"
  | value => scalarText value

/-- The items after the first, each after a comma and on a line of its own. -/
def indentedItems (depth : Nat) : List Json → String
  | [] => ""
  | item :: rest =>
    "," ++ newline depth ++ indented depth item ++ indentedItems depth rest

/-- The fields after the first, each after a comma and on a line of its own. -/
def indentedFields (depth : Nat) : List (String × Json) → String
  | [] => ""
  | (name, value) :: rest =>
    "," ++ newline depth ++ quoted name ++ ": " ++ indented depth value ++
      indentedFields depth rest

end

/-- The indented form of a whole text. -/
def pretty (value : Json) : String := indented 0 value

/-! ## The compact form -/

mutual

/-- The compact form. -/
def compact : Json → String
  | arr items => "[" ++ compactItems true items ++ "]"
  | obj fields => "\x7b" ++ compactFields true fields ++ "\x7d"
  | value => scalarText value

/-- Items behind commas, but for the first. -/
def compactItems (first : Bool) : List Json → String
  | [] => ""
  | item :: rest => (if first then "" else ",") ++ compact item ++ compactItems false rest

/-- Fields behind commas, but for the first. -/
def compactFields (first : Bool) : List (String × Json) → String
  | [] => ""
  | (name, value) :: rest =>
    (if first then "" else ",") ++ quoted name ++ ":" ++ compact value ++
      compactFields false rest

end

end Custodian.Json
