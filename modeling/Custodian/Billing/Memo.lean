import Custodian.Accrual.Settlement
import Custodian.Stores.Basic

/-!
# The rate memo

A report asks the rate directory at most once for each scope and asset that has a usable
rate. Only such rates are kept: after a miss, a rate out of range or a failed query the
directory is asked again the next time.
-/

namespace Custodian

/-- Usable rates found so far, by scope and asset. -/
structure RateMemo where
  rates : List ((String × String) × Decimal)
  deriving DecidableEq, Repr

namespace RateMemo

/-- Nothing found yet. -/
def empty : RateMemo := ⟨[]⟩

/-- The rate kept for a scope and an asset. -/
def find? (m : RateMemo) (scope asset : String) : Option Decimal := m.rates.lookup (scope, asset)

/-- Keeps a rate. -/
def insert (m : RateMemo) (scope asset : String) (fraction : Decimal) : RateMemo :=
  ⟨((scope, asset), fraction) :: m.rates⟩

/-- The number of rates kept. -/
def size (m : RateMemo) : Nat := m.rates.length

/-- What an answer of the directory means: a rate in `(0, 1]` is usable, any other one and a
missing one are errors, and so is a query that failed. -/
def judge (scope asset : String) : Except Error (Option Decimal) → Except Error Decimal
  | .error e => .error e
  | .ok none => .error (.custody (.billingNotFound scope asset))
  | .ok (some fraction) => (checkFraction fraction).map fun _ => fraction

/-- Keeps the rate of a successful look-up and nothing else. -/
def learn (m : RateMemo) (scope asset : String) : Except Error Decimal → RateMemo
  | .ok fraction => m.insert scope asset fraction
  | .error _ => m

/-- The rate of an asset in a scope, from the memo or else from the directory. A missing
rate is noted. -/
def resolve {σ : Type} (stores : Stores σ) (m : RateMemo) (scope asset : String) :
    StateM σ (Except Error Decimal × RateMemo) :=
  match m.find? scope asset with
  | some fraction => return (.ok fraction, m)
  | none => do
    let answer ← stores.rate scope asset
    match answer with
    | .ok none => stores.note (.rateMissing asset scope)
    | _ => pure ()
    let result := judge scope asset answer
    return (result, m.learn scope asset result)

end RateMemo

end Custodian
