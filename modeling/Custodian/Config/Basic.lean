import Custodian.Error
import Custodian.Time.Millis

/-!
# Configuration

The settings of the custody engine, their defaults and their bounds.
-/

namespace Custodian

/-- The settings of the engine. -/
structure Config where
  /-- The length of time over which a fee fraction is charged once. -/
  custodyPeriod : Int64
  /-- What stands before a domain in the id of its billing scope. -/
  billingTemplate : String
  /-- Snapshots that lag by more than this many custody periods are renewed. -/
  stalenessMultiplier : Int64
  transferPageSize : Nat
  accountPageSize : Nat
  maxConcurrentAccounts : Nat
  /-- Whether replays start from stored snapshots and leave new ones. -/
  snapshotsEnabled : Bool
  deriving DecidableEq, Repr

namespace Config

/-- The settings in force where nothing else is said: periods of a day, snapshots renewed
after fourteen of them. -/
def default : Config where
  custodyPeriod := 86400000
  billingTemplate := "custody_billing@"
  stalenessMultiplier := 14
  transferPageSize := 200
  accountPageSize := 20
  maxConcurrentAccounts := 4
  snapshotsEnabled := true

/-- Refuses settings outside their bounds, the first in this order. -/
def check (c : Config) : Except Error Unit :=
  if c.custodyPeriod ≤ 0 then
    .error (.invalidConfigValue s!"custody period must be positive, got {c.custodyPeriod}")
  else if c.stalenessMultiplier < 0 then
    .error (.invalidConfigValue
      s!"snapshot staleness multiplier must not be negative, got {c.stalenessMultiplier}")
  else if c.transferPageSize = 0 ∨ c.accountPageSize = 0 then
    .error (.invalidConfigValue "page sizes must be greater than zero")
  else if c.maxConcurrentAccounts = 0 then
    .error (.invalidConfigValue "max concurrent accounts must be greater than zero")
  else .ok ()

/-- The billing scope of a domain. -/
def scopeOf (c : Config) (domain : String) : String := c.billingTemplate ++ domain

/-- The longest time a snapshot may lag behind the accrual it was taken from. -/
def staleness (c : Config) : Int64 := Time.timesClamped c.custodyPeriod c.stalenessMultiplier

end Config

end Custodian
