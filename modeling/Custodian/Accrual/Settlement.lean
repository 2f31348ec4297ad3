import Custodian.Accrual.Context
import Custodian.Accrual.Window
import Custodian.Decimal.Ratio

/-!
# Settlement

A balance held for a while adds to the assets under custody in proportion to its share of
the report window, and to the fee in proportion to its share of the custody period. Shares
have eight digits after the point. `settle` accrues both for the time since the control
point and moves the control point, so a walk that only settles counts every interval once.
-/

namespace Custodian

/-- Refuses a fee fraction outside `(0, 1]`. -/
def checkFraction (fraction : Decimal) : Except Error Unit :=
  if fraction ≤ .zero ∨ .one < fraction then .error (.custody (.invalidFeeFraction fraction))
  else .ok ()

/-- The share of `elapsed` in `total`, for a non-negative and a positive length of time. -/
def timeShare (elapsed total : Int64) : Except Error Decimal :=
  match Decimal.ratio? elapsed.toInt.toNat total.toInt.toNat with
  | some share => .ok share
  | none => .error (Context.overflow "time ratio")

/-- The result of a decimal operation, or the overflow of the named operation. -/
def orOverflow (operation : String) : Option Decimal → Except Error Decimal
  | some d => .ok d
  | none => .error (Context.overflow operation)

namespace Context

/-- Adds `balance * elapsed / total` to the assets under custody. -/
def accrueAuc (c : Context) (total elapsed : Int64) (balance : Decimal) :
    Except Error Context :=
  if total ≤ 0 ∨ elapsed < 0 then .error (.custody (.invalidAccrualInterval total elapsed))
  else do
    let share ← timeShare elapsed total
    let accrued ← orOverflow "AUC increment" (balance.mul? share)
    let auc ← orOverflow "cumulative AUC" (c.auc.add? accrued)
    return { c with auc := auc }

/-- Adds `fraction * elapsed / period * balance` to the fee. -/
def accrueFeeOver (c : Context) (elapsed : Int64) (fraction : Decimal) (period : Int64) :
    Except Error Context := do
  let share ← timeShare elapsed period
  let accrued ←
    orOverflow "fee increment" ((fraction.mul? share).bind fun rate => rate.mul? c.balance)
  let fee ← orOverflow "cumulative fee" (c.fee.add? accrued)
  return { c with fee := fee }

/-- The length of time from the control point to `settleAt`. -/
def elapsedTo (c : Context) (settleAt : Int64) : Except Error Int64 :=
  match Time.minus? settleAt c.control with
  | some elapsed => .ok elapsed
  | none => .error (overflow "elapsed time")

/-- Adds the fee on the balance for the time since the control point. The control point
stays where it is. -/
def accrueFee (c : Context) (settleAt : Int64) (fraction : Decimal) (period : Int64) :
    Except Error Context := do
  checkFraction fraction
  if period ≤ 0 then .error (.custody (.invalidAccrualInterval period 0))
  else
    let elapsed ← c.elapsedTo settleAt
    if elapsed < 0 then .error (.custody (.controlPointRegression c.control settleAt))
    else c.accrueFeeOver elapsed fraction period

/-- Settles the time from the control point to `settleAt` and moves the control point there.
An instant at or before the control point changes nothing. -/
def settle (c : Context) (window : Window) (settleAt : Int64) (fraction : Decimal)
    (period : Int64) : Except Error Context :=
  if settleAt ≤ c.control then .ok c
  else do
    let elapsed ← c.elapsedTo settleAt
    let length ← window.length
    let accrued ← c.accrueAuc length elapsed c.balance
    let charged ← accrued.accrueFee settleAt fraction period
    return charged.advanceTo settleAt

end Context

end Custodian
