import Custodian.Cli.Arguments
import Custodian.Cli.Statement
import Custodian.Config.Environment
import Custodian.Database.Basic
import Custodian.Json.Printer
import Custodian.Replay.Session

/-!
# Carrying out a command

A command without `--page` walks all pages of its accounts, each page being a report of its
own, and prints them as one statement. What is printed is the statement, or the envelope of
the failure; the exit status is 0, or 75 for a failure worth trying again, or 1. A misuse of
the command line and settings that cannot be used both give 2.
-/

namespace Custodian

/-- How a run ends. -/
inductive Outcome where
  | help
  | misuse
  | unusableSettings (failure : Failure)
  | failed (envelope : Envelope)
  | reported (statement : Statement)
  deriving DecidableEq, Repr

namespace Outcome

/-- The exit status. -/
def exitStatus : Outcome → Nat
  | help => 0
  | misuse => 2
  | unusableSettings _ => 2
  | failed envelope => if envelope.retryable then 75 else 1
  | reported _ => 0

/-- What is printed as the result. -/
def output : Outcome → String
  | help => Invocation.usage ++ "\n"
  | misuse => ""
  | unusableSettings _ => ""
  | failed envelope => (Wire.ofEnvelope envelope).pretty ++ "\n"
  | reported statement => statement.toJson.pretty ++ "\n"

/-- What is printed as a complaint about arguments or settings that cannot be used. -/
def complaint : Outcome → String
  | misuse => Invocation.usage
  | unusableSettings failure => "Invalid configuration: " ++ failure.message
  | help => ""
  | failed _ => ""
  | reported _ => ""

end Outcome

namespace Command

variable {σ : Type}

/-- A report on one page of accounts. -/
abbrev PageReport (σ : Type) :=
  PageRequest → StateM σ (Except Error (Listing AccountCustody))

/-- Reports on page `n` and those after it. -/
def collectFrom (report : PageReport σ) (size n : Nat) :
    ExceptT Error (StateM σ) (List (Page AccountCustody)) := do
  let request : PageRequest := ⟨n, size⟩
  let listing ← ExceptT.mk (report request)
  let page := Page.ofListing request listing
  if h : (Page.ofListing request listing).hasNext = true then
    return page :: (← collectFrom report size (n + 1))
  else return [page]
  termination_by maxPage - n
  decreasing_by
    have : n < maxPage := Page.number_lt_maxPage h
    omega

/-- Reports on one page if a number is given, and on all of them otherwise. -/
def collectPages (report : PageReport σ) (page : Option Nat) (size : Nat) :
    ExceptT Error (StateM σ) (List (Page AccountCustody)) :=
  match page with
  | some n => do
    let listing ← ExceptT.mk (report ⟨n, size⟩)
    return [Page.ofListing ⟨n, size⟩ listing]
  | none => collectFrom report size 1

/-- The statement of the accounts of a domain, or of all accounts. -/
def pagedStatement (stores : Stores σ) (config : Config) (c : Command)
    (domain : Option String) : ExceptT Error (StateM σ) Statement := do
  let report (request : PageRequest) :=
    Report.runOn stores (Report.accounts config domain c.start c.stop request)
  let pages ← collectPages report c.page (c.pageSize.getD config.accountPageSize)
  return Statement.ofPages pages

/-- The statement that a command asks for. -/
def statement (stores : Stores σ) (config : Config) (c : Command) :
    ExceptT Error (StateM σ) Statement :=
  match c.subject with
  | .account id => do
    let assets ← ExceptT.mk (Report.runOn stores (Report.account config id c.start c.stop))
    return Statement.ofAccount id assets
  | .domain name => c.pagedStatement stores config (some name)
  | .system => c.pagedStatement stores config none

/-- Carries out a command on a database, which is migrated first. -/
def execute (config : Config) (c : Command) (db : Database) : Outcome × Database :=
  match db.reopened with
  | .error fault => (.failed fault.toError.envelope, db)
  | .ok db =>
    match (c.statement Database.stores config).run.run db with
    | (.ok statement, db) => (.reported statement, db)
    | (.error e, db) => (.failed e.envelope, db)

/-- What a run comes to on the database that opening its file gave, and the database it leaves
if there is one. -/
def onOpened (config : Config) (c : Command) :
    Except StorageFault Database → Outcome × Option Database
  | .error fault => (.failed fault.toError.envelope, none)
  | .ok db =>
    let (outcome, db) := c.execute config db
    (outcome, some db)

/-- The settings and the command of a run, or how it ends without them. Arguments are looked
at before the environment. -/
def prepare (arguments : List String) (lookup : String → Option String) :
    Except Outcome (Settings × Command) :=
  match Invocation.ofArguments arguments with
  | .help => .error .help
  | .misuse => .error .misuse
  | .report command =>
    match Settings.ofEnvironment lookup with
    | .error failure => .error (.unusableSettings failure)
    | .ok settings => .ok (settings, command)

end Command

/-- A whole run: the arguments, the environment, and the database that opening its file
gave. The database is looked at last. -/
def Outcome.ofRun (arguments : List String) (lookup : String → Option String)
    (opened : Except StorageFault Database) : Outcome × Option Database :=
  match Command.prepare arguments lookup with
  | .error outcome => (outcome, none)
  | .ok (settings, command) => command.onOpened settings.config opened

end Custodian
