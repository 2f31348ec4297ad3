import Custodian.Billing.Rate
import Custodian.Stores.Basic

/-!
# Stores in memory

Stores held as plain lists, with a count of the calls made to each and a schedule of calls
that fail. A fault makes every call after a number of them fail, for one asset (or account)
only if it says so.
-/

namespace Custodian

/-- Calls that fail: those after the first `after`, of the given subject only if there is
one. -/
structure Fault where
  error : Error
  after : Nat
  subject : Option String
  deriving DecidableEq, Repr

/-- Whether call number `n` about a subject fails. -/
def Fault.strikes (f : Fault) (n : Nat) (subject : String) : Bool :=
  decide (f.after < n) &&
    match f.subject with
    | none => true
    | some s => s == subject

/-- The schedule of failing calls. -/
structure Faults where
  transfers : Option Fault
  accounts : Option Fault
  rate : Option Fault
  snapshot : Option Fault
  append : Option Fault
  deriving DecidableEq, Repr

/-- No call fails. -/
def Faults.none : Faults := ⟨.none, .none, .none, .none, .none⟩

/-- How often each store has been called. -/
structure Calls where
  transfers : Nat
  accounts : Nat
  rate : Nat
  snapshot : Nat
  append : Nat
  deriving DecidableEq, Repr

/-- No call yet. -/
def Calls.none : Calls := ⟨0, 0, 0, 0, 0⟩

/-- A configured fraction, by scope, asset and kind. -/
structure RateEntry where
  scope : String
  asset : String
  kind : BillingKind
  fraction : Decimal
  deriving DecidableEq, Repr

/-- Whether a rate is the one of a scope, an asset and a kind. -/
def RateEntry.isFor (r : RateEntry) (scope asset : String) (kind : BillingKind) : Bool :=
  r.scope == scope && r.asset == asset && r.kind == kind

/-- Stores in memory. -/
structure Memory where
  accounts : List Account
  transfers : List Transfer
  rates : List RateEntry
  snapshots : List Snapshot
  faults : Faults
  /-- Whether transfer listings include those at or after the instant asked for. -/
  noCutoff : Bool
  /-- Rows that transfer listings claim beyond those they have. -/
  extraTotal : Nat
  calls : Calls
  notices : List Notice
  deriving DecidableEq, Repr

namespace Memory

/-- Nothing stored. -/
def empty : Memory :=
  { accounts := [], transfers := [], rates := [], snapshots := [], faults := .none
    noCutoff := false, extraTotal := 0, calls := .none, notices := [] }

/-- Counts no calls and keeps no notices from before. -/
def restarted (m : Memory) : Memory := { m with calls := .none, notices := [] }

/-- The transfers of an account from before an instant, in the order given. Rejected ones are
among them. -/
def transfersOf (m : Memory) (account : String) (stop : Int64) : List Transfer :=
  m.transfers.filter fun t => t.touches account && (m.noCutoff || decide (t.occurredAt < stop))

/-- The accounts of a domain, or all. -/
def accountsOf (m : Memory) (domain : Option String) : List Account :=
  m.accounts.filter fun a =>
    match domain with
    | none => true
    | some d => a.domain == d

/-- The fraction of a scope, an asset and a kind. -/
def fractionOf (m : Memory) (scope asset : String) (kind : BillingKind) : Option Decimal :=
  (m.rates.find? fun r => r.isFor scope asset kind).map RateEntry.fraction

/-- Puts a fraction in place of the one of the same scope, asset and kind; none takes that
one out. -/
def putRate (m : Memory) (scope asset : String) (kind : BillingKind)
    (fraction : Option Decimal) : Memory :=
  let others := m.rates.filter fun r => !r.isFor scope asset kind
  { m with
    rates :=
      match fraction with
      | none => others
      | some f => others ++ [⟨scope, asset, kind, f⟩] }

/-- The snapshots of an asset of an account at or before an instant. -/
def snapshotsUpTo (m : Memory) (account asset : String) (time : Int64) : List Snapshot :=
  m.snapshots.filter fun s => s.account == account && s.asset == asset && decide (s.control ≤ time)

/-- The snapshot with the greatest control point, the last of them. -/
def newest (snapshots : List Snapshot) : Option Snapshot :=
  snapshots.foldl
    (fun best s =>
      match best with
      | none => some s
      | some b => if b.control ≤ s.control then some s else some b) none

/-- The value, unless a fault strikes call number `n` about a subject. -/
def unlessStruck {α : Type} (fault : Option Fault) (n : Nat) (subject : String) (value : α) :
    Except Error α :=
  match fault with
  | some f => if f.strikes n subject then .error f.error else .ok value
  | none => .ok value

/-- The stores over a memory. -/
def stores : Stores Memory where
  transfers account stop page := fun m =>
    let calls := { m.calls with transfers := m.calls.transfers + 1 }
    let rows := m.transfersOf account stop
    (unlessStruck m.faults.transfers calls.transfers account
      ⟨page.slice rows, rows.length + m.extraTotal⟩, { m with calls := calls })
  accounts domain page := fun m =>
    let calls := { m.calls with accounts := m.calls.accounts + 1 }
    let rows := m.accountsOf domain
    (unlessStruck m.faults.accounts calls.accounts "" ⟨page.slice rows, rows.length⟩,
      { m with calls := calls })
  rate scope asset := fun m =>
    let calls := { m.calls with rate := m.calls.rate + 1 }
    (unlessStruck m.faults.rate calls.rate asset (m.fractionOf scope asset .custody),
      { m with calls := calls })
  snapshot account asset time := fun m =>
    let calls := { m.calls with snapshot := m.calls.snapshot + 1 }
    (unlessStruck m.faults.snapshot calls.snapshot asset
      (newest (m.snapshotsUpTo account asset time)), { m with calls := calls })
  append snapshot := fun m =>
    let calls := { m.calls with append := m.calls.append + 1 }
    match unlessStruck m.faults.append calls.append snapshot.asset () with
    | .ok () => (.ok (), { m with calls := calls, snapshots := m.snapshots ++ [snapshot] })
    | .error e => (.error e, { m with calls := calls })
  writesWait := pure false
  note notice := fun m => ((), { m with notices := m.notices ++ [notice] })

end Memory

end Custodian
