import Custodian.Database.Basic
import Custodian.Json.Printer
import Custodian.Json.Reader
import Custodian.Wire.Decode
import Custodian.Wire.Encode

/-!
# The database file

Between two runs the database is one JSON object: the rows of each table in the order of
their insertion, each row the list of its columns, and the counters that go with them. A
table that is missing is null. Reading gives back the database that was written
(`database?_ofDatabase`); notices and the state of the writer are not kept.
-/

namespace Custodian.Archive

-- Powers are those of the core library, whatever else is in scope; for that a numeral as an
-- exponent has its type.
attribute [local instance(1100)] instPowNat

/-! ## Columns -/

/-- An integer of any size. -/
def integer? : Json → Option Int
  | .int n => some n
  | _ => none

/-- The id of a snapshot: a text if it was given, a number if it was made up. -/
def ofSnapshotId : SnapshotId → Json
  | .given text => .str text
  | .generated number => .int number

/-- Reads the id of a snapshot. -/
def snapshotId? : Json → Option SnapshotId
  | .str text => some (.given text)
  | .int n => some (.generated n.toNat)
  | _ => none

/-- The creation time of a snapshot: a text if it was given, a number if the database wrote
it. -/
def ofCreation : CreationTime → Json
  | .given text => .str text
  | .written number => .int number

/-- Reads the creation time of a snapshot. -/
def creation? : Json → Option CreationTime
  | .str text => some (.given text)
  | .int n => some (.written n.toNat)
  | _ => none

/-! ## Rows -/

/-- An account row. -/
def ofAccount (r : AccountRow) : Json := .arr [.str r.id, .str r.name, .str r.domain]

/-- Reads an account row. -/
def account? : Json → Option AccountRow
  | .arr [.str id, .str name, .str domain] => some ⟨id, name, domain⟩
  | _ => none

/-- A transfer row. -/
def ofTransfer (r : TransferRow) : Json :=
  .arr [.str r.id, .int r.position.block, .int r.position.transaction, .int r.position.index,
    .str r.source, .str r.destination, .str r.asset, .str r.amount, Wire.ofMillis r.occurredAt,
    .bool r.rejected]

/-- Reads a transfer row. -/
def transfer? : Json → Option TransferRow
  | .arr [.str id, .int block, .int transaction, .int index, .str source, .str destination,
      .str asset, .str amount, occurredAt, .bool rejected] => do
    let occurredAt ← Wire.int64? occurredAt
    return ⟨id, ⟨block, transaction, index⟩, source, destination, asset, amount, occurredAt,
      rejected⟩
  | _ => none

/-- A rate row. -/
def ofRate (r : RateRow) : Json :=
  .arr [.str r.scope, .str r.asset, .str r.kind, .str r.fraction, Wire.ofMillis r.created,
    Wire.ofMillis r.updated]

/-- Reads a rate row. -/
def rate? : Json → Option RateRow
  | .arr [.str scope, .str asset, .str kind, .str fraction, created, updated] => do
    let created ← Wire.int64? created
    let updated ← Wire.int64? updated
    return ⟨scope, asset, kind, fraction, created, updated⟩
  | _ => none

/-- A snapshot row. -/
def ofSnapshot (r : SnapshotRow) : Json :=
  .arr [ofSnapshotId r.id, .str r.account, .str r.asset, .str r.fee, Wire.ofMillis r.control,
    .str r.balance, ofCreation r.created]

/-- Reads a snapshot row. -/
def snapshot? : Json → Option SnapshotRow
  | .arr [id, .str account, .str asset, .str fee, control, .str balance, created] => do
    let id ← snapshotId? id
    let control ← Wire.int64? control
    let created ← creation? created
    return ⟨id, account, asset, fee, control, balance, created⟩
  | _ => none

/-! ## Tables -/

/-- A table, which may be missing. -/
def ofTable {α : Type} (ofRow : α → Json) : Option (List α) → Json
  | none => .null
  | some rows => .arr (rows.map ofRow)

/-- Reads a table. -/
def table? {α : Type} (row? : Json → Option α) : Json → Option (Option (List α))
  | .null => some none
  | .arr rows => (rows.mapM row?).map some
  | _ => none

/-- A database. -/
def ofDatabase (db : Database) : Json :=
  .obj [("accounts", ofTable ofAccount db.tables.accounts),
    ("transfers", ofTable ofTransfer db.tables.transfers),
    ("rates", ofTable ofRate db.tables.rates),
    ("snapshots", ofTable ofSnapshot db.tables.snapshots),
    ("migrated", .bool db.tables.migrated),
    ("written", .int db.written)]

/-- Reads a database, as a new process finds it. -/
def database? (j : Json) : Option Database :=
  match Wire.required ["accounts", "transfers", "rates", "snapshots", "migrated", "written"] j with
  | some [accounts, transfers, rates, snapshots, migrated, written] => do
    let tables : Tables :=
      ⟨← table? account? accounts, ← table? transfer? transfers, ← table? rate? rates,
        ← table? snapshot? snapshots, ← migrated.bool?⟩
    let written ← integer? written
    return { Database.ofTables tables with written := written.toNat }
  | _ => none

/-! ## Reading gives back what was written -/

theorem int64?_ofMillis (t : Int64) : Wire.int64? (Wire.ofMillis t) = some t := by
  have hl := t.le_toInt
  have hu := t.toInt_lt
  have h : -2 ^ (63 : Nat) ≤ t.toInt ∧ t.toInt ≤ 2 ^ (63 : Nat) - 1 := by omega
  simp only [Wire.int64?, Wire.ofMillis, Json.int?, if_pos h, Option.map_some, Int64.ofInt_toInt]

theorem snapshotId?_ofSnapshotId (id : SnapshotId) :
    snapshotId? (ofSnapshotId id) = some id := by
  cases id <;> simp [snapshotId?, ofSnapshotId]

theorem creation?_ofCreation (t : CreationTime) : creation? (ofCreation t) = some t := by
  cases t <;> simp [creation?, ofCreation]

theorem account?_ofAccount (r : AccountRow) : account? (ofAccount r) = some r := rfl

theorem transfer?_ofTransfer (r : TransferRow) : transfer? (ofTransfer r) = some r := by
  simp [transfer?, ofTransfer, int64?_ofMillis]

theorem rate?_ofRate (r : RateRow) : rate? (ofRate r) = some r := by
  simp [rate?, ofRate, int64?_ofMillis]

theorem snapshot?_ofSnapshot (r : SnapshotRow) : snapshot? (ofSnapshot r) = some r := by
  simp [snapshot?, ofSnapshot, int64?_ofMillis, snapshotId?_ofSnapshotId, creation?_ofCreation]

/-- A table is read back if its rows are. -/
theorem table?_ofTable {α : Type} {ofRow : α → Json} {row? : Json → Option α}
    (h : ∀ r, row? (ofRow r) = some r) (t : Option (List α)) :
    table? row? (ofTable ofRow t) = some t := by
  cases t with
  | none => rfl
  | some rows =>
    have : (rows.map ofRow).mapM row? = some rows := by
      induction rows with
      | nil => rfl
      | cons r rows ih => simp [h, ih]
    simp [table?, ofTable, this]

/-- The tables and counters of a database are read back as they were written. -/
theorem database?_ofDatabase (db : Database) :
    database? (ofDatabase db) =
      some { Database.ofTables db.tables with written := db.written } := by
  simp [database?, ofDatabase, Wire.required, Json.field?, List.lookup_cons, Json.bool?, integer?,
    table?_ofTable account?_ofAccount, table?_ofTable transfer?_ofTransfer,
    table?_ofTable rate?_ofRate, table?_ofTable snapshot?_ofSnapshot]

/-! ## The text of the file -/

/-- The text that keeps a database. -/
def write (db : Database) : String := (ofDatabase db).compact ++ "\n"

/-- The database that a text keeps. -/
def read (text : String) : Except StorageFault Database :=
  match (Json.parse? text).bind database? with
  | some db => .ok db
  | none => .error (.queryFailed "file is not a database")

/-- A database whose file is not there yet. -/
def missing : Database := Database.ofTables .none

/-- The directory that a path names a file in, if it names one. -/
def directoryOf (path : String) : Option String :=
  match (path.toList.reverse.dropWhile (· ≠ '/')).tail with
  | [] => none
  | letters => some (String.ofList letters.reverse)

end Custodian.Archive
