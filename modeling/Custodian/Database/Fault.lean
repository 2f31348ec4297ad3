import Custodian.Error

/-!
# Faults of the storage layer

What the storage layer meets: connections, missing rows, violated keys, failed queries, the
database file, migrations, and errors of the engine raised inside a write. Outside the
layer each is a database error; an error of the engine is only kept as text there.
-/

namespace Custodian

/-- A fault inside the storage layer. -/
inductive StorageFault where
  | connectionFailed (detail : String)
  | rowNotFound
  | keyViolated (detail : String)
  | queryFailed (detail : String)
  | fileUnavailable (detail : String)
  | migrationFailed (detail : String)
  | engine (cause : Error)
  deriving DecidableEq, Repr

/-- The error that a fault is outside the storage layer. -/
def StorageFault.toError : StorageFault → Error
  | connectionFailed t => .database (.connectionFailed t)
  | rowNotFound => .database (.notFound "Record not found")
  | keyViolated t => .database (.uniqueViolation t)
  | queryFailed t => .database (.queryFailed t)
  | fileUnavailable t => .database (.connectionFailed t)
  | migrationFailed t => .database (.migrationFailed t)
  | engine cause => .database (.internal cause.message)

end Custodian
