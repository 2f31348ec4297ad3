import Custodian.Database.Tables

/-!
# Changes

Inserting into the tables. Recording accounts and transfers leaves rows that are there
untouched and passes over new ones that clash with them; elsewhere a clash of keys is an
error. Rates are the only rows that are ever changed, and of those only the fraction and the
time of the last recording.
-/

namespace Custodian.Tables

/-! ## Single rows -/

/-- The row at the end of a table, unless a row with one of its keys is there. The keys are
tried in order, each with the error of its violation. -/
def insertInto {α : Type} (rows : List α) (row : α) (keys : List ((α → α → Bool) × Error)) :
    Except Error (List α) :=
  match keys.find? fun key => rows.any fun r => key.1 r row with
  | some (_, e) => .error e
  | .none => .ok (rows ++ [row])

/-- The keys of the account table. -/
def accountKeys : List ((AccountRow → AccountRow → Bool) × Error) :=
  [(fun a b => a.id == b.id, keyTaken .accounts ["account_id"])]

/-- The keys of the transfer table, the place before the id. -/
def transferKeys : List ((TransferRow → TransferRow → Bool) × Error) :=
  [(fun a b => a.position == b.position,
      keyTaken .transfers ["block_height", "tx_index", "transfer_index"]),
    (fun a b => a.id == b.id, keyTaken .transfers ["id"])]

/-- The key of the rate table. -/
def rateKeys : List ((RateRow → RateRow → Bool) × Error) :=
  [(RateRow.sameKey, keyTaken .rates ["scope_account_id", "asset_id", "billing_type"])]

/-- The key of the snapshot table. -/
def snapshotKeys : List ((SnapshotRow → SnapshotRow → Bool) × Error) :=
  [(fun a b => a.id == b.id, keyTaken .snapshots ["id"])]

/-- Inserts an account row. -/
def insertAccount (t : Tables) (row : AccountRow) : Except Error Tables := do
  let rows ← insertInto (← Tables.rows .accounts t.accounts) row accountKeys
  return { t with accounts := some rows }

/-- Inserts a transfer row. -/
def insertTransfer (t : Tables) (row : TransferRow) : Except Error Tables := do
  let rows ← insertInto (← Tables.rows .transfers t.transfers) row transferKeys
  return { t with transfers := some rows }

/-- Inserts a rate row. -/
def insertRate (t : Tables) (row : RateRow) : Except Error Tables := do
  let rows ← insertInto (← Tables.rows .rates t.rates) row rateKeys
  return { t with rates := some rows }

/-- Inserts a snapshot row. -/
def insertSnapshot (t : Tables) (row : SnapshotRow) : Except Error Tables := do
  let rows ← insertInto (← Tables.rows .snapshots t.snapshots) row snapshotKeys
  return { t with snapshots := some rows }

/-! ## Batches -/

/-- Inserts rows one by one, passing over those whose keys are taken. Gives the number
inserted. -/
def insertNew {α : Type} (keys : List ((α → α → Bool) × Error)) (rows : List α) :
    List α → Nat × List α
  | [] => (0, rows)
  | row :: batch =>
    match insertInto rows row keys with
    | .ok rows =>
      let (n, rows) := insertNew keys rows batch
      (n + 1, rows)
    | .error _ => insertNew keys rows batch

/-- Records accounts; those already recorded stay as they are. Without accounts nothing is
asked of the table. -/
def recordAccounts (t : Tables) (accounts : List Account) : Except Error (Nat × Tables) :=
  if accounts.isEmpty then .ok (0, t)
  else do
    let (n, rows) := insertNew accountKeys (← Tables.rows .accounts t.accounts)
      (accounts.map AccountRow.ofAccount)
    return (n, { t with accounts := some rows })

/-- Records transfers; places already recorded stay as they are. Without transfers nothing
is asked of the table. -/
def recordTransfers (t : Tables) (transfers : List RecordedTransfer) :
    Except Error (Nat × Tables) :=
  if transfers.isEmpty then .ok (0, t)
  else do
    let (n, rows) := insertNew transferKeys (← Tables.rows .transfers t.transfers)
      (transfers.map TransferRow.ofRecorded)
    return (n, { t with transfers := some rows })

/-- Inserts accounts, a clash being an error. Gives the number inserted. -/
def insertAccounts (t : Tables) (accounts : List Account) : Except Error (Nat × Tables) := do
  let t ← (accounts.map AccountRow.ofAccount).foldlM insertAccount t
  return (accounts.length, t)

/-! ## Rates -/

/-- Puts a rate row: a new one at the end, or else the fraction and the time of the last
recording into the one with its key. Gives the row as it then is. -/
def upsertInto (rows : List RateRow) (row : RateRow) : RateRow × List RateRow :=
  match rows.find? fun r => r.sameKey row with
  | .none => (row, rows ++ [row])
  | some old =>
    let merged := { old with fraction := row.fraction, updated := row.updated }
    (merged, rows.map fun r => if r.sameKey row then merged else r)

/-- Records a rate and gives it back as it is stored. -/
def upsertRate (t : Tables) (rate : BillingRate) : Except Error (BillingRate × Tables) := do
  let (row, rows) := upsertInto (← Tables.rows .rates t.rates) (.ofRate rate)
  return (← row.toRate, { t with rates := some rows })

end Custodian.Tables
