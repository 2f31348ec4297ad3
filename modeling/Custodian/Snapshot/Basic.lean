import Custodian.Accrual.Context

/-!
# Snapshots

A snapshot is a copy of an accrual context as settled at its control point: transfers of
that very instant are not in its balance yet.
-/

namespace Custodian

/-- A point-in-time copy of the accrual of one asset of one account. The id and the moment of
creation under which it is kept belong to its record (`SnapshotRecord`). -/
structure Snapshot where
  account : String
  asset : String
  fee : Decimal
  control : Int64
  balance : Decimal
  deriving DecidableEq, Repr

/-- The snapshot of a settled context. -/
def Context.snapshot (c : Context) (account asset : String) : Snapshot :=
  ⟨account, asset, c.fee, c.control, c.balance⟩

end Custodian
