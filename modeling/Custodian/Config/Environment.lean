import Custodian.Config.Basic
import Custodian.Failure
import Custodian.Text.Blank

/-!
# Settings from the environment

Every setting has a variable; an unset one keeps its default. Numbers and truth values are
read without the white space around them, texts as they are. The variables are read in a
fixed order, and the bounds are checked when all of them could be read.
-/

namespace Custodian

/-- The settings of a run: where the database is, and the configuration of the engine. -/
structure Settings where
  databasePath : String
  config : Config
  deriving DecidableEq, Repr

namespace Settings

open Custodian.Text

/-- Where the database is when nothing is said. -/
def defaultDatabasePath : String := "./db/custodian.db"

/-- The database file of a data directory. -/
def databaseIn (directory : String) : String :=
  let file := "custodian.db"
  if directory.isEmpty then file
  else if directory.endsWith "/" then directory ++ file
  else directory ++ "/" ++ file

/-- Reads a truth value, with the reason if it is none. -/
def readBool (text : String) : Except String Bool :=
  match text with
  | "true" => .ok true
  | "false" => .ok false
  | _ => .error "provided string was not `true` or `false`"

/-- The value of a variable, or its default where it is unset. -/
def setting {α : Type} (lookup : String → Option String) (key : String)
    (read : String → Except String α) (default : α) : Except Failure α :=
  match lookup key with
  | none => .ok default
  | some raw =>
    (read (trimBlanks raw)).mapError fun reason =>
      .outside ["Invalid " ++ key ++ ": " ++ raw, reason]

/-- A reader of integers whose faults are given as reasons. -/
def reasoned {α : Type} (read : String → Except IntegerFault α) (text : String) :
    Except String α :=
  (read text).mapError IntegerFault.message

/-- The variables that are looked at. -/
def keys : List String :=
  ["CUSTODIAN_DB_PATH", "CUSTODY_PERIOD_MS", "CUSTODY_BILLING_TEMPLATE",
    "CUSTODY_SNAPSHOT_STALENESS", "CUSTODY_TRANSFER_PAGE_SIZE", "CUSTODY_ACCOUNT_PAGE_SIZE",
    "CUSTODY_MAX_CONCURRENT_ACCOUNTS", "CUSTODY_SNAPSHOTS_ENABLED"]

/-- The settings that an environment describes. -/
def ofEnvironment (lookup : String → Option String) : Except Failure Settings := do
  let d := Config.default
  let period ← setting lookup "CUSTODY_PERIOD_MS" (reasoned readInt64) d.custodyPeriod
  let staleness ←
    setting lookup "CUSTODY_SNAPSHOT_STALENESS" (reasoned readInt64) d.stalenessMultiplier
  let transferPage ←
    setting lookup "CUSTODY_TRANSFER_PAGE_SIZE" (reasoned readWord32) d.transferPageSize
  let accountPage ←
    setting lookup "CUSTODY_ACCOUNT_PAGE_SIZE" (reasoned readWord32) d.accountPageSize
  let concurrent ←
    setting lookup "CUSTODY_MAX_CONCURRENT_ACCOUNTS" (reasoned readWord64)
      d.maxConcurrentAccounts
  let snapshots ← setting lookup "CUSTODY_SNAPSHOTS_ENABLED" readBool d.snapshotsEnabled
  let config : Config :=
    { custodyPeriod := period
      billingTemplate := (lookup "CUSTODY_BILLING_TEMPLATE").getD d.billingTemplate
      stalenessMultiplier := staleness
      transferPageSize := transferPage
      accountPageSize := accountPage
      maxConcurrentAccounts := concurrent
      snapshotsEnabled := snapshots }
  config.check.mapError Failure.engine
  return ⟨(lookup "CUSTODIAN_DB_PATH").getD defaultDatabasePath, config⟩

end Settings

end Custodian
