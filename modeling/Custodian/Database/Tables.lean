import Custodian.Database.Fault
import Custodian.Database.Row
import Custodian.Ledger.Page

/-!
# Tables

The database is four tables of rows in the order of their insertion, and a record of the
migration that made them. A table may be missing, in which case every query of it fails.
-/

namespace Custodian

/-- The tables by name. -/
inductive TableName where
  | accounts
  | transfers
  | rates
  | snapshots
  | migrations
  deriving DecidableEq, Repr

namespace TableName

/-- The name in the database. -/
def text : TableName → String
  | accounts => "ledger_accounts"
  | transfers => "ledger_transfers"
  | rates => "billing_rates"
  | snapshots => "custody_snapshots"
  | migrations => "__diesel_schema_migrations"

/-- The table of a name. -/
def ofText? (name : String) : Option TableName :=
  [accounts, transfers, rates, snapshots, migrations].find? fun t => t.text == name

end TableName

/-- The rows of every table that is there. -/
structure Tables where
  accounts : Option (List AccountRow)
  transfers : Option (List TransferRow)
  rates : Option (List RateRow)
  snapshots : Option (List SnapshotRow)
  /-- Whether the migration is on record. -/
  migrated : Bool
  deriving DecidableEq, Repr

namespace Tables

/-! ## Access -/

/-- The fault of a query of a table that is not there. -/
def noSuchTable (name : String) : StorageFault := .queryFailed ("no such table: " ++ name)

/-- The rows of a table, which must be there. -/
def rows {α : Type} (name : TableName) : Option (List α) → Except Error (List α)
  | some rows => .ok rows
  | none => .error (noSuchTable name.text).toError

/-- The error of a row whose key is taken. -/
def keyTaken (table : TableName) (columns : List String) : Error :=
  let names := columns.map fun c => table.text ++ "." ++ c
  (StorageFault.keyViolated ("UNIQUE constraint failed: " ++ String.intercalate ", " names)).toError

/-! ## The migration -/

/-- No table at all. -/
def none : Tables := ⟨.none, .none, .none, .none, false⟩

/-- The name of the migration. -/
def migrationName : String := "2025-01-01-000000_init_custody"

/-- The fault of creating a table that is there already. -/
def alreadyThere (name : TableName) : StorageFault :=
  .migrationFailed
    ("Failed to run " ++ migrationName ++ " with: table " ++ name.text ++ " already exists")

/-- Creates the four tables unless the migration is on record. A table that is there already
is in the way, the first one in this order. -/
def migrate (t : Tables) : Except StorageFault Tables :=
  if t.migrated then .ok t
  else if t.accounts.isSome then .error (alreadyThere .accounts)
  else if t.transfers.isSome then .error (alreadyThere .transfers)
  else if t.rates.isSome then .error (alreadyThere .rates)
  else if t.snapshots.isSome then .error (alreadyThere .snapshots)
  else .ok ⟨some [], some [], some [], some [], true⟩

/-- The tables of a new database. -/
def fresh : Tables := ⟨some [], some [], some [], some [], true⟩

/-- Takes a table away by its name. -/
def drop (t : Tables) (name : String) : Except Error Tables :=
  let missing : Except Error Tables := .error (noSuchTable name).toError
  match TableName.ofText? name with
  | some .accounts => if t.accounts.isSome then .ok { t with accounts := .none } else missing
  | some .transfers => if t.transfers.isSome then .ok { t with transfers := .none } else missing
  | some .rates => if t.rates.isSome then .ok { t with rates := .none } else missing
  | some .snapshots => if t.snapshots.isSome then .ok { t with snapshots := .none } else missing
  | some .migrations => if t.migrated then .ok { t with migrated := false } else missing
  | .none => missing

end Tables

end Custodian
