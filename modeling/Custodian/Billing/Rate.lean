import Custodian.Error

/-!
# Billing rates

A rate is a fee fraction configured for a billing scope, an asset and a kind of fee. Kinds
have a code, which is how they are stored and shown.
-/

namespace Custodian

/-- The kind of fee a rate is for. -/
inductive BillingKind where
  | transfer
  | custody
  | accountCreation
  | exchange
  | withdrawal
  deriving DecidableEq, Repr

namespace BillingKind

/-- The code of a kind. -/
def code : BillingKind → String
  | transfer => "TRANSFER"
  | custody => "CUSTODY"
  | accountCreation => "ACCOUNT_CREATION"
  | exchange => "EXCHANGE"
  | withdrawal => "WITHDRAWAL"

/-- The kind with a code. -/
def ofCode? : String → Option BillingKind
  | "TRANSFER" => some transfer
  | "CUSTODY" => some custody
  | "ACCOUNT_CREATION" => some accountCreation
  | "EXCHANGE" => some exchange
  | "WITHDRAWAL" => some withdrawal
  | _ => none

/-- The kind with a code, any other text being an input error. -/
def ofCode (text : String) : Except Error BillingKind :=
  match ofCode? text with
  | some kind => .ok kind
  | none => .error (.invalidInput ("unknown billing type '" ++ text ++ "'"))

theorem ofCode?_code (kind : BillingKind) : ofCode? kind.code = some kind := by
  cases kind <;> rfl

end BillingKind

/-- A configured fee rate, with the times of its first and last recording. -/
structure BillingRate where
  scope : String
  asset : String
  kind : BillingKind
  fraction : Decimal
  created : Int64
  updated : Int64
  deriving DecidableEq, Repr

end Custodian
