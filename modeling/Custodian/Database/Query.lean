import Custodian.Database.Tables

/-!
# Queries

Reading the tables. Listings come in a fixed order whatever the order of insertion:
transfers in commit order, accounts by full id, snapshots by control point. Rows are read
back into records only for the page that was asked for.
-/

namespace Custodian.Tables

/-! ## The ledger -/

/-- Whether a row is a transfer of an account that counts before an instant. -/
def isTransferOf (account : String) (stop : Int64) (r : TransferRow) : Bool :=
  (r.source == account || r.destination == account) && decide (r.occurredAt < stop) && !r.rejected

/-- The transfers of an account that count before an instant, in commit order. -/
def transfersOf (rows : List TransferRow) (account : String) (stop : Int64) : List TransferRow :=
  (rows.filter (isTransferOf account stop)).mergeSort fun a b => a.position.le b.position

/-- The number of those transfers. -/
def countTransfers (t : Tables) (account : String) (stop : Int64) : Except Error Nat := do
  let rows ← Tables.rows .transfers t.transfers
  return (transfersOf rows account stop).length

/-- Those transfers that stand on a page. -/
def transfersOn (t : Tables) (account : String) (stop : Int64) (page : PageRequest) :
    Except Error (List Transfer) := do
  let rows ← Tables.rows .transfers t.transfers
  (page.slice (transfersOf rows account stop)).mapM TransferRow.toTransfer

/-- A page of those transfers. They are counted before the page is read. -/
def listTransfers (t : Tables) (account : String) (stop : Int64) (page : PageRequest) :
    Except Error (Listing Transfer) := do
  page.check
  let total ← t.countTransfers account stop
  let items ← t.transfersOn account stop page
  return ⟨items, total⟩

/-- Whether a row is an account of a domain, or any account. -/
def isAccountOf (domain : Option String) (r : AccountRow) : Bool :=
  match domain with
  | .none => true
  | some d => r.domain == d

/-- The accounts of a domain, or all, by full id. -/
def accountsOf (rows : List AccountRow) (domain : Option String) : List AccountRow :=
  (rows.filter (isAccountOf domain)).mergeSort fun a b => decide (a.id ≤ b.id)

/-- The number of those accounts. -/
def countAccounts (t : Tables) (domain : Option String) : Except Error Nat := do
  let rows ← Tables.rows .accounts t.accounts
  return (accountsOf rows domain).length

/-- Those accounts that stand on a page. -/
def accountsOn (t : Tables) (domain : Option String) (page : PageRequest) :
    Except Error (List Account) := do
  let rows ← Tables.rows .accounts t.accounts
  return (page.slice (accountsOf rows domain)).map AccountRow.toAccount

/-- A page of those accounts. They are counted before the page is read. -/
def listAccounts (t : Tables) (domain : Option String) (page : PageRequest) :
    Except Error (Listing Account) := do
  page.check
  let total ← t.countAccounts domain
  let items ← t.accountsOn domain page
  return ⟨items, total⟩

/-! ## Rates -/

/-- The rate of a scope, an asset and a kind. -/
def findRate (t : Tables) (scope asset : String) (kind : BillingKind) :
    Except Error (Option BillingRate) := do
  let rows ← Tables.rows .rates t.rates
  match rows.find? fun r => r.scope == scope && r.asset == asset && r.kind == kind.code with
  | .none => return .none
  | some row => return some (← row.toRate)

/-- The custody fee fraction of a scope and an asset. -/
def findCustodyRate (t : Tables) (scope asset : String) : Except Error (Option Decimal) := do
  return (← t.findRate scope asset .custody).map BillingRate.fraction

/-! ## Snapshots -/

/-- Whether a row is a snapshot of an asset of an account. -/
def isSnapshotOf (account asset : String) (r : SnapshotRow) : Bool :=
  r.account == account && r.asset == asset

/-- Whether a snapshot comes after another one: by control point, then by creation. -/
def isNewer (a b : SnapshotRow) : Bool :=
  decide (b.control < a.control) || (a.control == b.control && b.created.le a.created)

/-- The newest row, the last inserted of equally new ones. -/
def newest (rows : List SnapshotRow) : Option SnapshotRow :=
  rows.foldl
    (fun best r =>
      match best with
      | .none => some r
      | some b => if isNewer r b then some r else some b) .none

/-- The newest snapshot of an asset of an account at or before an instant, as it is kept. -/
def recordUpTo (t : Tables) (account asset : String) (time : Int64) :
    Except Error (Option SnapshotRecord) := do
  let rows ← Tables.rows .snapshots t.snapshots
  let known := rows.filter fun r => isSnapshotOf account asset r && decide (r.control ≤ time)
  match newest known with
  | .none => return .none
  | some row => return some (← row.toRecord)

/-- The newest snapshot of an asset of an account at or before an instant. -/
def snapshotUpTo (t : Tables) (account asset : String) (time : Int64) :
    Except Error (Option Snapshot) := do
  return (← t.recordUpTo account asset time).map SnapshotRecord.snapshot

/-- All snapshots of an asset of an account as they are kept, by control point, those of one
point in the order of insertion. All rows are loaded before the first decimal is read. -/
def listRecords (t : Tables) (account asset : String) : Except Error (List SnapshotRecord) := do
  let rows ← Tables.rows .snapshots t.snapshots
  let found := (rows.filter (isSnapshotOf account asset)).mergeSort fun a b =>
    decide (a.control ≤ b.control)
  (← found.mapM SnapshotRow.load).mapM LoadedSnapshot.toRecord

/-- All snapshots of an asset of an account by control point. -/
def listSnapshots (t : Tables) (account asset : String) : Except Error (List Snapshot) := do
  return (← t.listRecords account asset).map SnapshotRecord.snapshot

end Custodian.Tables
