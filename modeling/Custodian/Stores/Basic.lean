import Custodian.Replay.Dialogue

/-!
# Stores

What answers the questions of a replay: the ledger's transfers and accounts, the directory
of billing rates, the snapshots, and the log. The state behind them is a parameter, so a
store may be a list in memory, a set of tables, or one whose calls fail on a schedule.
-/

namespace Custodian

/-- Stores over a state of type `σ`. -/
structure Stores (σ : Type) where
  transfers : String → Int64 → PageRequest → StateM σ (Except Error (Listing Transfer))
  accounts : Option String → PageRequest → StateM σ (Except Error (Listing Account))
  /-- The custody fee fraction configured for a scope and an asset, if there is one. -/
  rate : String → String → StateM σ (Except Error (Option Decimal))
  snapshot : String → String → Int64 → StateM σ (Except Error (Option Snapshot))
  append : Snapshot → StateM σ (Except Error Unit)
  /-- Whether appended snapshots wait in a queue. -/
  writesWait : StateM σ Bool
  note : Notice → StateM σ Unit

end Custodian
