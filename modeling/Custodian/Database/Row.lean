import Custodian.Billing.Rate
import Custodian.Database.Fault
import Custodian.Ledger.Account
import Custodian.Ledger.Transfer
import Custodian.Snapshot.Basic
import Custodian.Time.Stamp

/-!
# Table rows

Records as the tables hold them. Decimals, kinds of fee and times of creation are kept as
text, at full precision, and are only checked when a row is read back.
-/

namespace Custodian

/-! ## Accounts -/

/-- A row of the account table, keyed by the full id. -/
structure AccountRow where
  id : String
  name : String
  domain : String
  deriving DecidableEq, Repr

/-- The row of an account. -/
def AccountRow.ofAccount (a : Account) : AccountRow := ⟨a.id, a.name, a.domain⟩

/-- The account of a row. -/
def AccountRow.toAccount (r : AccountRow) : Account := ⟨r.name, r.domain⟩

/-! ## Transfers -/

/-- A place in the ledger. Places in order are the order in which transfers were
committed. -/
structure Position where
  block : Int
  transaction : Int
  index : Int
  deriving DecidableEq, Repr

namespace Position

/-- Commit order. -/
def le (a b : Position) : Bool :=
  decide (a.block < b.block ∨ (a.block = b.block ∧
    (a.transaction < b.transaction ∨ (a.transaction = b.transaction ∧ a.index ≤ b.index))))

/-- The text of a place, which is the id of the transfer there. -/
def text (p : Position) : String := s!"{p.block}:{p.transaction}:{p.index}"

end Position

/-- A transfer and its place in the ledger. -/
structure RecordedTransfer where
  position : Position
  transfer : Transfer
  deriving DecidableEq, Repr

/-- A row of the transfer table, keyed by its id and, apart from that, by its place. -/
structure TransferRow where
  id : String
  position : Position
  source : String
  destination : String
  asset : String
  amount : String
  occurredAt : Int64
  rejected : Bool
  deriving DecidableEq, Repr

/-- The row of a recorded transfer. -/
def TransferRow.ofRecorded (r : RecordedTransfer) : TransferRow :=
  { id := r.position.text
    position := r.position
    source := r.transfer.source
    destination := r.transfer.destination
    asset := r.transfer.asset
    amount := r.transfer.amount.toText
    occurredAt := r.transfer.occurredAt
    rejected := r.transfer.rejected }

/-- The transfer of a row. -/
def TransferRow.toTransfer (r : TransferRow) : Except Error Transfer := do
  let amount ← readDecimal r.amount
  return ⟨r.source, r.destination, r.asset, amount, r.occurredAt, r.rejected⟩

/-! ## Rates -/

/-- A row of the rate table, keyed by scope, asset and kind. -/
structure RateRow where
  scope : String
  asset : String
  kind : String
  fraction : String
  created : Int64
  updated : Int64
  deriving DecidableEq, Repr

/-- The row of a rate. -/
def RateRow.ofRate (r : BillingRate) : RateRow :=
  ⟨r.scope, r.asset, r.kind.code, r.fraction.toText, r.created, r.updated⟩

/-- The rate of a row. The kind is read before the fraction. -/
def RateRow.toRate (r : RateRow) : Except Error BillingRate := do
  let kind ← BillingKind.ofCode r.kind
  let fraction ← readDecimal r.fraction
  return ⟨r.scope, r.asset, kind, fraction, r.created, r.updated⟩

/-- Whether two rows have the same key. -/
def RateRow.sameKey (a b : RateRow) : Bool :=
  a.scope == b.scope && a.asset == b.asset && a.kind == b.kind

/-! ## Snapshots -/

/-- The id of a snapshot: one that was given, or one of those made up as snapshots are
written, which differ from each other and from all given ones. -/
inductive SnapshotId where
  | given (text : String)
  | generated (number : Nat)
  deriving DecidableEq, Repr

/-- When a snapshot was created: at a given time, or at one of the readings of the clock that
the database takes as it writes. -/
inductive Moment where
  | time (t : Time.Timestamp)
  | reading (number : Nat)
  deriving DecidableEq, Repr

/-- A creation time as it is kept: a given time as text, or as the database wrote it. No clock
is read for the latter; numbers keep their order. -/
inductive CreationTime where
  | given (text : String)
  | written (number : Nat)
  deriving DecidableEq, Repr

namespace CreationTime

/-- The creation time that stands for an instant. -/
def ofMillis (millis : Int64) : CreationTime := .given (Time.columnText millis)

/-- A moment as it is kept. -/
def ofMoment : Moment → CreationTime
  | .time t => given t.columnText
  | .reading number => written number

/-- The moment that is kept. A text that is no time fails as the query does that reads it. -/
def toMoment : CreationTime → Except Error Moment
  | written number => return .reading number
  | given text =>
    match Time.Timestamp.ofColumnText? text with
    | some t => return .time t
    | none =>
      throw (StorageFault.queryFailed
        ("Error deserializing field 'created_at': Invalid datetime " ++ text)).toError

/-- The text that stands for the present, in which the database writes. Of the clock it is
assumed that it shows a year from 2027 to 9999 and has gone on at each reading. Times given
for snapshots are assumed to lie before 2027, or beyond all readings. -/
def present : String := "2027"

/-- The text by which a creation time is compared. -/
def text : CreationTime → String
  | given text => text
  | written _ => present

/-- The order among creation times of one text. -/
def number : CreationTime → Nat
  | given _ => 0
  | written number => number

/-- Order of creation. The texts are compared as texts: those of years with a sign, which are
the years before 0 and after 9999, come before all others. -/
def le (a b : CreationTime) : Bool :=
  decide (a.text < b.text ∨ (a.text = b.text ∧ a.number ≤ b.number))

end CreationTime

/-- A row of the snapshot table, keyed by its id. -/
structure SnapshotRow where
  id : SnapshotId
  account : String
  asset : String
  fee : String
  control : Int64
  balance : String
  created : CreationTime
  deriving DecidableEq, Repr

/-- The row of a snapshot. -/
def SnapshotRow.ofSnapshot (id : SnapshotId) (s : Snapshot) (created : CreationTime) :
    SnapshotRow :=
  ⟨id, s.account, s.asset, s.fee.toText, s.control, s.balance.toText, created⟩

/-- A snapshot with the id and the moment of creation under which it is kept. -/
structure SnapshotRecord where
  id : SnapshotId
  snapshot : Snapshot
  created : Moment
  deriving DecidableEq, Repr

/-- The row of a record. -/
def SnapshotRow.ofRecord (r : SnapshotRecord) : SnapshotRow :=
  .ofSnapshot r.id r.snapshot (.ofMoment r.created)

/-- A row as the query loads it: the moment of creation is read, the decimals are not yet. -/
structure LoadedSnapshot where
  row : SnapshotRow
  created : Moment
  deriving DecidableEq, Repr

/-- Loads a row. -/
def SnapshotRow.load (r : SnapshotRow) : Except Error LoadedSnapshot := do
  return ⟨r, ← r.created.toMoment⟩

/-- The record of a loaded row. The fee is read before the balance. -/
def LoadedSnapshot.toRecord (l : LoadedSnapshot) : Except Error SnapshotRecord := do
  let fee ← readDecimal l.row.fee
  let balance ← readDecimal l.row.balance
  return ⟨l.row.id, ⟨l.row.account, l.row.asset, fee, l.row.control, balance⟩, l.created⟩

/-- The record of a row. -/
def SnapshotRow.toRecord (r : SnapshotRow) : Except Error SnapshotRecord := do
  (← r.load).toRecord

end Custodian
