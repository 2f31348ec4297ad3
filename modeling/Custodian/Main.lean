import Custodian.Cli.Run
import Custodian.Database.Archive

/-!
# The program

Reads the environment and the database file, carries out the command, writes the database
back and prints the outcome. All decisions are made by `Command.prepare` and
`Command.onOpened`; nothing here looks at a value.
-/

namespace Custodian

/-- The variables of the environment that a run looks at. -/
def environment : IO (String → Option String) := do
  let entries ← Settings.keys.mapM fun key => return (key, ← IO.getEnv key)
  return fun key => (entries.lookup key).join

/-- The database of a file, a missing file being a database without tables. -/
def openDatabase (path : String) : IO (Except StorageFault Database) := do
  try
    if let some directory := Archive.directoryOf path then IO.FS.createDirAll directory
    let file ← IO.FS.Handle.mk path .append
    file.flush
    let text ← IO.FS.readFile path
    return if text.isEmpty then .ok Archive.missing else Archive.read text
  catch e => return .error (.fileUnavailable (toString e))

/-- Writes a database to its file. -/
def saveDatabase (path : String) (db : Database) : IO Unit := do
  try IO.FS.writeFile path (Archive.write db)
  catch e => IO.eprintln ("ERROR " ++ toString e)

/-- Prints what an outcome has to say, and gives the exit status. -/
def conclude (outcome : Outcome) : IO UInt32 := do
  IO.print outcome.output
  unless outcome.complaint.isEmpty do IO.eprintln outcome.complaint
  return outcome.exitStatus.toUInt32

end Custodian

open Custodian in
/-- Runs a command. -/
def main (arguments : List String) : IO UInt32 := do
  match Command.prepare arguments (← environment) with
  | .error outcome => conclude outcome
  | .ok (settings, command) =>
    let opened ← openDatabase settings.databasePath
    let (outcome, database) := command.onOpened settings.config opened
    if let some db := database then
      db.notices.forM fun notice => IO.eprintln notice.line
      saveDatabase settings.databasePath db
    conclude outcome
