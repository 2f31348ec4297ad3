import Custodian.Database.Change
import Custodian.Database.Query
import Custodian.Stores.Basic

/-!
# The database

Reads see the tables as they are. Writes go one at a time through a single writer, each as
one transaction: it takes effect as a whole, or not at all if it fails. Whatever error is
raised inside a write reaches the caller as an internal database error that keeps only its
text. Once the writer has stopped, every write fails and reads go on.
-/

namespace Custodian

/-- A database with its writer. -/
structure Database where
  tables : Tables
  /-- Whether the writer still runs. -/
  writing : Bool
  /-- The number of snapshots written by reports. -/
  written : Nat
  notices : List Notice
  deriving DecidableEq, Repr

/-- A transaction: what it gives and leaves, or the error it is abandoned with. -/
abbrev Transaction (α : Type) := Tables → Except Error (α × Tables)

namespace Database

/-! ## Opening -/

/-- A database over given tables, with its writer running. -/
def ofTables (tables : Tables) : Database := ⟨tables, true, 0, []⟩

/-- A new database. -/
def fresh : Database := ofTables .fresh

/-- The database as a new process finds it: migrated if need be, with a writer of its own. -/
def reopened (db : Database) : Except StorageFault Database :=
  db.tables.migrate.map fun tables => { db with tables := tables, writing := true }

/-! ## Reading and writing -/

/-- A read. It changes nothing. -/
def read {α : Type} (query : Tables → Except Error α) : StateM Database (Except Error α) :=
  fun db => (query db.tables, db)

/-- The error of a write after the writer has stopped. -/
def writerStopped : Error :=
  .database (.connectionFailed "database writer is no longer running")

/-- A write. Its changes are kept only if it succeeds. -/
def write {α : Type} (transaction : Transaction α) : StateM Database (Except Error α) :=
  fun db =>
    if db.writing then
      match transaction db.tables with
      | .ok (a, tables) => (.ok a, { db with tables := tables })
      | .error e => (.error (StorageFault.engine e).toError, db)
    else (.error writerStopped, db)

/-- A write in whose course the writer stops, unless the transaction was abandoned before
that. Nothing of it is kept. -/
def writeAndStop {α : Type} (transaction : Transaction α) :
    StateM Database (Except Error α) :=
  fun db =>
    if db.writing then
      match transaction db.tables with
      | .ok _ => (.error writerStopped, { db with writing := false })
      | .error e => (.error (StorageFault.engine e).toError, db)
    else (.error writerStopped, db)

/-! ## As stores -/

/-- Records a snapshot that a report took, with an id and a creation time of its own. -/
def appendWritten (s : Snapshot) : StateM Database (Except Error Unit) := fun db =>
  let row := SnapshotRow.ofSnapshot (.generated db.written) s (.written db.written)
  let (result, db) := (write fun t => do return ((), ← t.insertSnapshot row)).run db
  (result, { db with written := db.written + 1 })

/-- The stores over a database. Snapshots wait for the writer as long as it runs; afterwards
they fail at once. -/
def stores : Stores Database where
  transfers account stop page := read fun t => t.listTransfers account stop page
  accounts domain page := read fun t => t.listAccounts domain page
  rate scope asset := read fun t => t.findCustodyRate scope asset
  snapshot account asset time := read fun t => t.snapshotUpTo account asset time
  append := appendWritten
  writesWait := fun db => (db.writing, db)
  note notice := fun db => ((), { db with notices := db.notices ++ [notice] })

end Database

end Custodian
