import Custodian.Decimal.Arithmetic
import Custodian.Error

/-!
# Accrual contexts

What has been accrued on one asset of one account: fee and assets under custody up to the
control point, and the balance held from there on.
-/

namespace Custodian

/-- Fee and assets under custody of one asset. -/
structure AssetCustody where
  fee : Decimal
  assetsUnderCustody : Decimal
  deriving DecidableEq, Repr

/-- The running accrual of one asset. Everything up to `control` has been settled. -/
structure Context where
  fee : Decimal
  auc : Decimal
  control : Int64
  balance : Decimal
  deriving DecidableEq, Repr

namespace Context

/-- Nothing accrued, and a balance established before the control point. -/
def withBalance (control : Int64) (balance : Decimal) : Context :=
  ⟨.zero, .zero, control, balance⟩

/-- Nothing accrued and nothing held. -/
def fresh (control : Int64) : Context := withBalance control .zero

/-- The error of an operation whose result does not fit. -/
def overflow (operation : String) : Error := .custody (.accrualOverflow operation)

/-- Moves the balance. -/
def applyDelta (c : Context) (delta : Decimal) : Except Error Context :=
  match c.balance.add? delta with
  | some balance => .ok { c with balance := balance }
  | none => .error (overflow "running balance")

/-- Moves the control point. -/
def advanceTo (c : Context) (control : Int64) : Context := { c with control := control }

/-- The totals accrued so far. -/
def custody (c : Context) : AssetCustody := ⟨c.fee, c.auc⟩

end Context

end Custodian
