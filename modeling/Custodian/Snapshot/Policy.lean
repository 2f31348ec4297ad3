import Custodian.Accrual.Window
import Custodian.Config.Basic
import Custodian.Snapshot.Basic

/-!
# When snapshots are used and left

A replay of an asset starts from the newest snapshot at or before the start of its window,
if there is one: the snapshot's balance is taken over and transfers from before its control
point are not replayed. Nothing that a snapshot accrued lies in the window, so fee and
assets under custody start from zero. A new snapshot is due when none is known, or when the
newest known one lags behind by more than the staleness threshold.
-/

namespace Custodian

/-- The replay of one asset. -/
structure AssetState where
  context : Context
  fraction : Decimal
  /-- Transfers from before this instant are in the starting balance already. -/
  replayFrom : Option Int64
  /-- The control point of the newest snapshot known. -/
  lastSnapshotAt : Option Int64
  deriving DecidableEq, Repr

namespace AssetState

/-- A replay from the first transfer on. -/
def genesis (window : Window) (fraction : Decimal) : AssetState :=
  ⟨.fresh window.start, fraction, none, none⟩

/-- A replay from a snapshot on. -/
def seeded (snapshot : Snapshot) (window : Window) (fraction : Decimal) : AssetState :=
  ⟨.withBalance window.start snapshot.balance, fraction, some snapshot.control,
    some snapshot.control⟩

/-- Whether a transfer of this instant is in the starting balance already. -/
def isFolded (s : AssetState) (occurredAt : Int64) : Bool :=
  match s.replayFrom with
  | some seed => decide (occurredAt < seed)
  | none => false

end AssetState

/-- How one report treats snapshots. -/
structure SnapshotPolicy where
  enabled : Bool
  staleness : Int64
  deriving DecidableEq, Repr

namespace SnapshotPolicy

/-- No snapshot is read or written. -/
def disabled : SnapshotPolicy := ⟨false, 0⟩

/-- The policy of a configuration. -/
def ofConfig (c : Config) : SnapshotPolicy := ⟨c.snapshotsEnabled, c.staleness⟩

/-- Whether a snapshot is due at a control point. -/
def shouldWrite (p : SnapshotPolicy) (last : Option Int64) (control : Int64) : Bool :=
  p.enabled &&
    match last with
    | none => true
    | some seen => decide (p.staleness < Time.minusClamped control seen)

end SnapshotPolicy

end Custodian
