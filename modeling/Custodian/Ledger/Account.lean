import Custodian.Error

/-!
# Ledger accounts

An account belongs to a domain. Its full id is `name@domain`.
-/

namespace Custodian

/-- An account of the ledger. -/
structure Account where
  name : String
  domain : String
  deriving DecidableEq, Repr

namespace Account

/-- The full id. -/
def id (a : Account) : String := a.name ++ "@" ++ a.domain

/-- The account of a full id. The first `@` ends the name, and neither part is empty. -/
def ofId (id : String) : Except Error Account :=
  match id.toList.span (· ≠ '@') with
  | (name@(_ :: _), _ :: domain@(_ :: _)) => .ok ⟨String.ofList name, String.ofList domain⟩
  | _ => .error (.invalidInput ("account id '" ++ id ++ "' is not of the form name@domain"))

end Account

end Custodian
