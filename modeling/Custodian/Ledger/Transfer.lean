import Custodian.Decimal.Basic

/-!
# Transfers

A transfer moves an amount of one asset from one account to another. Seen from an account
it is a signed change of that account's balance.
-/

namespace Custodian

/-- A transfer committed in a block of the ledger. -/
structure Transfer where
  source : String
  destination : String
  asset : String
  amount : Decimal
  /-- The time of the block. -/
  occurredAt : Int64
  rejected : Bool
  deriving DecidableEq, Repr

namespace Transfer

/-- The change of an account's balance. A transfer from an account to itself changes
nothing. -/
def deltaFor (t : Transfer) (account : String) : Decimal :=
  if t.source = account then
    if t.destination = account then t.amount.cancelled else t.amount.opposite
  else if t.destination = account then t.amount
  else .zero

/-- Whether an account is source or destination. -/
def touches (t : Transfer) (account : String) : Bool :=
  t.source == account || t.destination == account

/-- Whether a transfer counts for what an account holds before an instant. -/
def countsBefore (t : Transfer) (stop : Int64) : Bool := !t.rejected && decide (t.occurredAt < stop)

end Transfer

end Custodian
