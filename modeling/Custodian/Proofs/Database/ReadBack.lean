import Custodian.Proofs.Database.Accounts
import Custodian.Proofs.Database.Recording
import Custodian.Proofs.Decimal.Value
import Custodian.Proofs.Time.ColumnReading
import Custodian.Snapshot.Policy

/-!
# Rows are read back as they were written

Decimals, kinds of fee and times of creation are kept as text. Whatever record a row was made of is
what the row is read as (`Transfer.stored`, `BillingRate.stored`, `SnapshotRecord.stored`), its id
and its times included: its decimals keep value and scale, and only a zero loses its sign
(`Decimal.Alike`). Tables that only repositories have written to hold nothing but such rows
(`Tables.Written.holds`), so no query of theirs fails.
-/

namespace Custodian

/-! ## Decimals -/

namespace Decimal

/-- A decimal has the value and the scale of another one, and is the same unless that is a zero with
a sign. -/
structure Alike (a b : Decimal) : Prop where
  value : a.value = b.value
  scale : a.scale = b.scale
  same : a = b ↔ b.Plain

theorem alike_unsignedZero (d : Decimal) : d.unsignedZero.Alike d := by
  refine ⟨value_unsignedZero d, ?_, ?_, Plain.unsignedZero⟩
  · unfold unsignedZero
    split
    · rfl
    · rfl
  · intro hsame
    rw [← hsame]
    exact plain_unsignedZero d

/-- A written decimal is read back. -/
theorem readDecimal_toText_alike (d : Decimal) :
    ∃ read, readDecimal d.toText = .ok read ∧ read.Alike d :=
  ⟨d.unsignedZero, readDecimal_toText d, d.alike_unsignedZero⟩

end Decimal

/-! ## Records -/

theorem BillingKind.ofCode_code (kind : BillingKind) : ofCode kind.code = .ok kind := by
  unfold ofCode
  rw [ofCode?_code]

theorem BillingKind.code_beq_code (kind kind' : BillingKind) :
    (kind.code == kind'.code) = (kind == kind') := by
  rw [Bool.eq_iff_iff, beq_iff_eq, beq_iff_eq]
  constructor
  · intro h
    have hread := ofCode?_code kind
    rw [h, ofCode?_code] at hread
    exact (Option.some.inj hread).symm
  · intro h
    rw [h]

/-- The rate as it is handed out: a fraction of zero has lost its sign. -/
def BillingRate.stored (r : BillingRate) : BillingRate :=
  { r with fraction := r.fraction.unsignedZero }

theorem RateRow.toRate_ofRate (r : BillingRate) : (ofRate r).toRate = .ok r.stored := by
  unfold toRate ofRate
  show (BillingKind.ofCode r.kind.code >>= fun kind => readDecimal r.fraction.toText >>= _) = _
  rw [BillingKind.ofCode_code, readDecimal_toText]
  rfl

/-- The snapshot as it is handed out: zeros have lost their signs. -/
def Snapshot.stored (s : Snapshot) : Snapshot :=
  { s with fee := s.fee.unsignedZero, balance := s.balance.unsignedZero }

/-- The record as it is handed out, under its id and from its moment of creation. -/
def SnapshotRecord.stored (r : SnapshotRecord) : SnapshotRecord :=
  { r with snapshot := r.snapshot.stored }

/-- A moment is read back as it was kept. -/
theorem CreationTime.toMoment_ofMoment (m : Moment) : (ofMoment m).toMoment = .ok m := by
  cases m with
  | time t =>
    unfold ofMoment toMoment
    simp only [Time.Timestamp.ofColumnText?_columnText]
    rfl
  | reading number => rfl

/-- An instant is read back as its time. -/
theorem CreationTime.toMoment_ofMillis (millis : Int64) :
    (ofMillis millis).toMoment = .ok (.time (.ofMillis millis.toInt)) :=
  toMoment_ofMoment (.time (.ofMillis millis.toInt))

theorem SnapshotRow.load_ofRecord (r : SnapshotRecord) :
    (ofRecord r).load = .ok ⟨ofRecord r, r.created⟩ := by
  unfold load
  show CreationTime.toMoment (.ofMoment r.created) >>= _ = _
  rw [CreationTime.toMoment_ofMoment]
  rfl

theorem LoadedSnapshot.toRecord_ofRecord (r : SnapshotRecord) :
    toRecord ⟨.ofRecord r, r.created⟩ = .ok r.stored := by
  unfold toRecord
  show (readDecimal r.snapshot.fee.toText >>= fun fee =>
    readDecimal r.snapshot.balance.toText >>= _) = _
  rw [readDecimal_toText, readDecimal_toText]
  rfl

theorem SnapshotRow.toRecord_ofRecord (r : SnapshotRecord) :
    (ofRecord r).toRecord = .ok r.stored := by
  unfold toRecord
  rw [load_ofRecord]
  exact LoadedSnapshot.toRecord_ofRecord r

/-- The rows of records are loaded and read one by one. -/
theorem SnapshotRow.mapM_ofRecord (records : List SnapshotRecord) :
    ((records.map ofRecord).mapM load >>= fun loaded => loaded.mapM LoadedSnapshot.toRecord) =
      .ok (records.map SnapshotRecord.stored) := by
  have hload : load ∘ ofRecord = fun r => pure ⟨ofRecord r, r.created⟩ := funext load_ofRecord
  have hread : (LoadedSnapshot.toRecord ∘ fun r => ⟨ofRecord r, r.created⟩) =
      fun r => pure r.stored := funext LoadedSnapshot.toRecord_ofRecord
  rw [List.mapM_map, hload, List.mapM_pure]
  show (records.map fun r => LoadedSnapshot.mk (ofRecord r) r.created).mapM _ = _
  rw [List.mapM_map, hread]
  exact List.mapM_pure

/-! ## The table of rates -/

namespace BillingRate

/-- Whether a rate is the one of a scope, an asset and a kind. -/
def isFor (scope asset : String) (kind : BillingKind) (r : BillingRate) : Bool :=
  r.scope == scope && r.asset == asset && r.kind == kind

/-- What is kept of a rate that is recorded, and all rates after that: a rate that is there keeps
the time of its first recording. -/
def recorded (rate : BillingRate) (rates : List BillingRate) : BillingRate × List BillingRate :=
  match rates.find? (isFor rate.scope rate.asset rate.kind) with
  | none => (rate, rates ++ [rate])
  | some old =>
    let merged := { old with fraction := rate.fraction, updated := rate.updated }
    (merged, rates.map fun r => if r.isFor rate.scope rate.asset rate.kind then merged else r)

theorem isFor_self (rate : BillingRate) :
    rate.isFor rate.scope rate.asset rate.kind = true := by
  unfold isFor
  rw [beq_self_eq_true, beq_self_eq_true, beq_self_eq_true]
  rfl

theorem fraction_recorded (rates : List BillingRate) (rate : BillingRate) :
    (rate.recorded rates).1.fraction = rate.fraction := by
  unfold recorded
  split
  · rfl
  · rfl

/-- What is kept of a recorded rate is found from then on. -/
theorem find?_recorded (rates : List BillingRate) (rate : BillingRate) :
    (rate.recorded rates).2.find? (isFor rate.scope rate.asset rate.kind) =
      some (rate.recorded rates).1 := by
  unfold recorded
  split
  · rename_i hnone
    rw [List.find?_append, hnone, List.find?_singleton, isFor_self]
    rfl
  · rename_i old hfind
    have hold : old.isFor rate.scope rate.asset rate.kind = true := List.find?_some hfind
    have hmerged : isFor rate.scope rate.asset rate.kind
        { old with fraction := rate.fraction, updated := rate.updated } = true := hold
    -- rows keep their keys, so the row that is found is where the old one was
    have hkey : (isFor rate.scope rate.asset rate.kind ∘ fun r =>
        if r.isFor rate.scope rate.asset rate.kind = true
        then { old with fraction := rate.fraction, updated := rate.updated } else r) =
          isFor rate.scope rate.asset rate.kind := by
      funext r
      show isFor _ _ _ (if _ then _ else _) = _
      split
      · rename_i hr
        rw [hmerged, hr]
      · rfl
    rw [List.find?_map, hkey, hfind, Option.map_some, if_pos hold]

end BillingRate

namespace Tables

variable {t t' : Tables} {rates : List BillingRate}

theorem sameKey_ofRate (r rate : BillingRate) :
    (RateRow.ofRate r).sameKey (.ofRate rate) = r.isFor rate.scope rate.asset rate.kind := by
  unfold RateRow.sameKey BillingRate.isFor RateRow.ofRate
  rw [BillingKind.code_beq_code]

/-- Rows of rates make way for a row of a rate. -/
theorem upsertInto_ofRate (rates : List BillingRate) (rate : BillingRate) :
    upsertInto (rates.map .ofRate) (.ofRate rate) =
      (.ofRate (rate.recorded rates).1, (rate.recorded rates).2.map .ofRate) := by
  have hkey : (fun r => RateRow.sameKey r (.ofRate rate)) ∘ RateRow.ofRate =
      BillingRate.isFor rate.scope rate.asset rate.kind := funext fun r => sameKey_ofRate r rate
  unfold upsertInto BillingRate.recorded
  rw [List.find?_map, hkey]
  rcases rates.find? (BillingRate.isFor rate.scope rate.asset rate.kind) with _ | old
  · show (RateRow.ofRate rate, rates.map RateRow.ofRate ++ [RateRow.ofRate rate]) = _
    rw [List.map_append]
    rfl
  · refine Prod.ext rfl ?_
    show (rates.map RateRow.ofRate).map _ = (rates.map _).map RateRow.ofRate
    rw [List.map_map, List.map_map]
    refine List.map_congr_left fun r _ => ?_
    show (if (RateRow.ofRate r).sameKey (.ofRate rate) then _ else _) = RateRow.ofRate (if _ then _ else _)
    rw [sameKey_ofRate]
    split
    · rfl
    · rfl

/-- A rate is recorded, and given back as it is found from then on. -/
theorem upsertRate_ofRate (h : t.rates = some (rates.map .ofRate)) (rate : BillingRate) :
    t.upsertRate rate =
      .ok ((rate.recorded rates).1.stored,
        { t with rates := some ((rate.recorded rates).2.map .ofRate) }) := by
  unfold upsertRate
  rw [h]
  simp only [Tables.rows, bind, Except.bind, upsertInto_ofRate, RateRow.toRate_ofRate]
  rfl

/-- A rate is found as it is stored. -/
theorem findRate_ofRate (h : t.rates = some (rates.map .ofRate)) (scope asset : String)
    (kind : BillingKind) :
    t.findRate scope asset kind =
      .ok ((rates.find? (BillingRate.isFor scope asset kind)).map BillingRate.stored) := by
  have hkey : (fun r : RateRow => r.scope == scope && r.asset == asset && r.kind == kind.code) ∘
      RateRow.ofRate = BillingRate.isFor scope asset kind := by
    funext r
    show (r.scope == scope && r.asset == asset && r.kind.code == kind.code) = _
    rw [BillingKind.code_beq_code]
    rfl
  unfold findRate
  rw [h]
  simp only [Tables.rows, bind, Except.bind, List.find?_map, hkey]
  rcases rates.find? (BillingRate.isFor scope asset kind) with _ | r
  · rfl
  · simp only [Option.map_some, RateRow.toRate_ofRate]
    rfl

end Tables

/-! ## The table of snapshots -/

namespace Tables

variable {t t' : Tables} {rows : List SnapshotRow} {records : List SnapshotRecord}

/-- The newest of several rows is the last one if none is newer. -/
theorem newest_concat {r : SnapshotRow} (h : ∀ b ∈ rows, isNewer r b = true) :
    newest (rows ++ [r]) = some r := by
  unfold newest
  rw [List.foldl_append]
  show List.foldl _ (newest rows) [r] = some r
  rcases hnewest : newest rows with _ | b
  · rfl
  · exact if_pos (h b (mem_of_newest hnewest))

/-- The rows of an asset of an account at or before an instant. -/
def upTo (rows : List SnapshotRow) (account asset : String) (time : Int64) : List SnapshotRow :=
  rows.filter fun r => isSnapshotOf account asset r && decide (r.control ≤ time)

/-- The newest of these rows is looked up. -/
theorem recordUpTo_eq (h : t.snapshots = some rows) (account asset : String) (time : Int64) :
    t.recordUpTo account asset time =
      match newest (upTo rows account asset time) with
      | .none => .ok .none
      | some r => r.toRecord.map some := by
  unfold upTo recordUpTo
  simp only [h, Tables.rows, bind, Except.bind]
  rcases newest (rows.filter fun r => isSnapshotOf account asset r && decide (r.control ≤ time))
    with _ | r
  · rfl
  · rcases r.toRecord with e | record
    · rfl
    · rfl

/-- What is looked up of a snapshot is that of its record. -/
theorem snapshotUpTo_of_recordUpTo {account asset : String} {time : Int64}
    {found : Option SnapshotRecord} (h : t.recordUpTo account asset time = .ok found) :
    t.snapshotUpTo account asset time = .ok (found.map SnapshotRecord.snapshot) := by
  unfold snapshotUpTo
  rw [h]
  rfl

theorem listSnapshots_of_listRecords {account asset : String} {found : List SnapshotRecord}
    (h : t.listRecords account asset = .ok found) :
    t.listSnapshots account asset = .ok (found.map SnapshotRecord.snapshot) := by
  unfold listSnapshots
  rw [h]
  rfl

/-- The newest row of records is that of one of them, and read back as it. -/
theorem recordUpTo_ofRecord (h : t.snapshots = some (records.map .ofRecord))
    (account asset : String) (time : Int64) :
    ∃ found : Option SnapshotRecord,
      t.recordUpTo account asset time = .ok (found.map SnapshotRecord.stored) ∧
      newest (upTo (records.map .ofRecord) account asset time) =
        found.map SnapshotRow.ofRecord := by
  rw [recordUpTo_eq h]
  rcases hnewest : newest (upTo (records.map .ofRecord) account asset time) with _ | row
  · exact ⟨.none, rfl, rfl⟩
  · obtain ⟨r, -, rfl⟩ := List.mem_map.mp (List.mem_filter.mp (mem_of_newest hnewest)).1
    refine ⟨some r, ?_, rfl⟩
    simp only
    rw [SnapshotRow.toRecord_ofRecord]
    rfl

/-- A record that is inserted is found if it is newer than all that are looked up with it. -/
theorem recordUpTo_inserted {r : SnapshotRecord} (h : t.snapshots = some rows)
    (hinsert : t.insertSnapshot (.ofRecord r) = .ok t') {time : Int64}
    (hcontrol : r.snapshot.control ≤ time)
    (hnewer : ∀ row ∈ upTo rows r.snapshot.account r.snapshot.asset time,
      isNewer (.ofRecord r) row = true) :
    t'.recordUpTo r.snapshot.account r.snapshot.asset time = .ok (some r.stored) := by
  obtain ⟨rows', hrows', rfl⟩ := insertSnapshot_eq_ok hinsert
  cases h.symm.trans hrows'
  let row := SnapshotRow.ofRecord r
  have hself : (isSnapshotOf r.snapshot.account r.snapshot.asset row &&
      decide (row.control ≤ time)) = true := by
    show (r.snapshot.account == r.snapshot.account && r.snapshot.asset == r.snapshot.asset &&
      decide (r.snapshot.control ≤ time)) = true
    rw [beq_self_eq_true, beq_self_eq_true, decide_eq_true hcontrol]
    rfl
  have hupTo : upTo (rows ++ [row]) r.snapshot.account r.snapshot.asset time =
      upTo rows r.snapshot.account r.snapshot.asset time ++ [row] := by
    unfold upTo
    rw [List.filter_append, List.filter_singleton, hself]
    rfl
  have hnewest : newest (upTo (rows ++ [row]) r.snapshot.account r.snapshot.asset time) =
      some row := by
    rw [hupTo]
    exact newest_concat hnewer
  rw [recordUpTo_eq rfl, hnewest]
  simp only
  rw [SnapshotRow.toRecord_ofRecord]
  rfl

/-- All records of an asset of an account are listed, sorted as their rows are. -/
theorem listRecords_ofRecord (h : t.snapshots = some (records.map .ofRecord))
    (account asset : String) :
    t.listRecords account asset =
      .ok (((records.filter fun r => isSnapshotOf account asset (.ofRecord r)).mergeSort fun a b =>
        decide (a.snapshot.control ≤ b.snapshot.control)).map SnapshotRecord.stored) := by
  have hsort : ((records.map SnapshotRow.ofRecord).filter (isSnapshotOf account asset)).mergeSort
      (fun a b => decide (a.control ≤ b.control)) =
        ((records.filter fun r => isSnapshotOf account asset (.ofRecord r)).mergeSort fun a b =>
          decide (a.snapshot.control ≤ b.snapshot.control)).map SnapshotRow.ofRecord := by
    rw [List.filter_map]
    refine (List.map_mergeSort ?_).symm
    intro _ _ _ _
    rfl
  unfold listRecords
  simp only [h, Tables.rows, bind, Except.bind, hsort]
  exact SnapshotRow.mapM_ofRecord _

end Tables

/-! ## Tables that repositories have written to -/

namespace Tables

/-- Every row is the row of a record. -/
structure Holds (t : Tables) (enrolled : List Account) (ledger : Ledger)
    (known : List BillingRate) (records : List SnapshotRecord) : Prop where
  accounts : t.accounts = some (enrolled.map .ofAccount)
  transfers : t.transfers = some (ledger.map .ofRecorded)
  rates : t.rates = some (known.map .ofRate)
  snapshots : t.snapshots = some (records.map .ofRecord)

/-- New tables, after any number of writes. -/
inductive Written : Tables → Prop
  | fresh : Written .fresh
  | accounts {t t' : Tables} {n : Nat} (batch : List Account) (written : Written t)
      (recorded : t.recordAccounts batch = .ok (n, t')) : Written t'
  | transfers {t t' : Tables} {n : Nat} (batch : List RecordedTransfer) (written : Written t)
      (recorded : t.recordTransfers batch = .ok (n, t')) : Written t'
  | rate {t t' : Tables} {stored : BillingRate} (rate : BillingRate) (written : Written t)
      (recorded : t.upsertRate rate = .ok (stored, t')) : Written t'
  | snapshot {t t' : Tables} (r : SnapshotRecord) (written : Written t)
      (inserted : t.insertSnapshot (.ofRecord r) = .ok t') : Written t'

/-- Writes leave rows of records. -/
theorem Written.holds {t : Tables} (h : t.Written) :
    ∃ enrolled ledger known records, t.Holds enrolled ledger known records := by
  induction h with
  | fresh => exact ⟨[], [], [], [], rfl, rfl, rfl, rfl⟩
  | accounts batch _ recorded ih =>
    obtain ⟨enrolled, ledger, known, records, h⟩ := ih
    obtain ⟨n, hrecorded⟩ := recordAccounts_ofAccount h.accounts batch
    cases hrecorded.symm.trans recorded
    exact ⟨_, ledger, known, records, rfl, h.transfers, h.rates, h.snapshots⟩
  | transfers batch _ recorded ih =>
    obtain ⟨enrolled, ledger, known, records, h⟩ := ih
    obtain ⟨n, hrecorded⟩ := recordTransfers_ofRecorded h.transfers batch
    cases hrecorded.symm.trans recorded
    exact ⟨enrolled, _, known, records, h.accounts, rfl, h.rates, h.snapshots⟩
  | rate rate _ recorded ih =>
    obtain ⟨enrolled, ledger, known, records, h⟩ := ih
    cases (upsertRate_ofRate h.rates rate).symm.trans recorded
    exact ⟨enrolled, ledger, _, records, h.accounts, h.transfers, rfl, h.snapshots⟩
  | snapshot r _ inserted ih =>
    obtain ⟨enrolled, ledger, known, records, h⟩ := ih
    obtain ⟨rows, hrows, rfl⟩ := insertSnapshot_eq_ok inserted
    cases h.snapshots.symm.trans hrows
    refine ⟨enrolled, ledger, known, records ++ [r], h.accounts, h.transfers, h.rates, ?_⟩
    show some (records.map SnapshotRow.ofRecord ++ [.ofRecord r]) = _
    rw [List.map_append]
    rfl

/-- No query fails but for a page that is none. -/
structure Readable (t : Tables) : Prop where
  transfers : ∀ account stop (page : PageRequest), page.check = .ok () →
    ∃ listing, t.listTransfers account stop page = .ok listing
  accounts : ∀ domain (page : PageRequest), page.check = .ok () →
    ∃ listing, t.listAccounts domain page = .ok listing
  rate : ∀ scope asset kind, ∃ found, t.findRate scope asset kind = .ok found
  snapshot : ∀ account asset time, ∃ found, t.recordUpTo account asset time = .ok found ∧
    t.snapshotUpTo account asset time = .ok (found.map SnapshotRecord.snapshot)
  snapshots : ∀ account asset, ∃ found, t.listRecords account asset = .ok found ∧
    t.listSnapshots account asset = .ok (found.map SnapshotRecord.snapshot)

theorem Holds.readable {t : Tables} {enrolled : List Account} {ledger : Ledger}
    {known : List BillingRate} {records : List SnapshotRecord}
    (h : t.Holds enrolled ledger known records) : t.Readable where
  transfers _ _ _ hpage := ⟨_, listTransfers_ofRecorded h.transfers hpage⟩
  accounts domain _ hpage := ⟨_, listAccounts_ofAccount h.accounts hpage domain⟩
  rate scope asset kind := ⟨_, findRate_ofRate h.rates scope asset kind⟩
  snapshot account asset time := by
    obtain ⟨found, hfound, -⟩ := recordUpTo_ofRecord h.snapshots account asset time
    exact ⟨_, hfound, snapshotUpTo_of_recordUpTo hfound⟩
  snapshots account asset := by
    have hlisted := listRecords_ofRecord h.snapshots account asset
    exact ⟨_, hlisted, listSnapshots_of_listRecords hlisted⟩

/-- A recorded rate is given back with its fraction, and found so from then on. -/
theorem Written.exists_upsertRate {t : Tables} (h : t.Written) (rate : BillingRate) :
    ∃ stored t', t.upsertRate rate = .ok (stored, t') ∧ stored.fraction.Alike rate.fraction ∧
      t'.findRate rate.scope rate.asset rate.kind = .ok (some stored) := by
  obtain ⟨_, _, known, _, hholds⟩ := h.holds
  refine ⟨(rate.recorded known).1.stored, _, upsertRate_ofRate hholds.rates rate, ?_, ?_⟩
  · rw [← BillingRate.fraction_recorded known rate]
    exact Decimal.alike_unsignedZero _
  · rw [findRate_ofRate rfl, BillingRate.find?_recorded]
    rfl

/-- A replay from a stored context starts with its balance. -/
theorem exists_seeded {t t' : Tables} {rows : List SnapshotRow} {c : Context}
    {account asset : String} {id : SnapshotId} {created : Moment} {time : Int64}
    (h : t.snapshots = some rows)
    (hinsert : t.insertSnapshot (.ofRecord ⟨id, c.snapshot account asset, created⟩) = .ok t')
    (hcontrol : c.control ≤ time)
    (hnewer : ∀ r ∈ upTo rows account asset time,
      isNewer (.ofRecord ⟨id, c.snapshot account asset, created⟩) r = true) :
    ∃ s, t'.recordUpTo account asset time = .ok (some ⟨id, s, created⟩) ∧
      t'.snapshotUpTo account asset time = .ok (some s) ∧ s.control = c.control ∧
      ∀ window fraction, (AssetState.seeded s window fraction).context.balance.Alike c.balance := by
  let r : SnapshotRecord := ⟨id, c.snapshot account asset, created⟩
  have hfound : t'.recordUpTo account asset time = .ok (some r.stored) :=
    recordUpTo_inserted (r := r) h hinsert hcontrol hnewer
  exact ⟨r.stored.snapshot, hfound, snapshotUpTo_of_recordUpTo hfound, rfl,
    fun _ _ => c.balance.alike_unsignedZero⟩

/-- What is written is read back: every decimal with value and scale, and the same unless it is a
zero with a sign; and with such decimals every transfer, every rate of any kind, and every snapshot
as the record that it was, under its id and from its moment of creation. So no query of tables fails
that only repositories have written to, a recorded rate is found as it was given back, and a replay
from a stored context starts with its balance. -/
theorem records_read_back :
    (∀ d : Decimal, ∃ read, readDecimal d.toText = .ok read ∧ read.Alike d) ∧
    (∀ r : RecordedTransfer, ∃ amount,
      (TransferRow.ofRecorded r).toTransfer = .ok { r.transfer with amount := amount } ∧
        amount.Alike r.transfer.amount) ∧
    (∀ r : BillingRate, ∃ fraction,
      (RateRow.ofRate r).toRate = .ok { r with fraction := fraction } ∧
        fraction.Alike r.fraction) ∧
    (∀ r : SnapshotRecord, ∃ fee balance,
      (SnapshotRow.ofRecord r).toRecord =
          .ok { r with snapshot := { r.snapshot with fee := fee, balance := balance } } ∧
        fee.Alike r.snapshot.fee ∧ balance.Alike r.snapshot.balance) ∧
    ∀ t : Tables, t.Written →
      t.Readable ∧
      (∀ rate, ∃ stored t', t.upsertRate rate = .ok (stored, t') ∧
        stored.fraction.Alike rate.fraction ∧
        t'.findRate rate.scope rate.asset rate.kind = .ok (some stored)) ∧
      ∀ (c : Context) account asset id created time t' rows, t.snapshots = some rows →
        t.insertSnapshot (.ofRecord ⟨id, c.snapshot account asset, created⟩) = .ok t' →
        c.control ≤ time →
        (∀ r ∈ upTo rows account asset time,
          isNewer (.ofRecord ⟨id, c.snapshot account asset, created⟩) r = true) →
        ∃ s, t'.recordUpTo account asset time = .ok (some ⟨id, s, created⟩) ∧
          t'.snapshotUpTo account asset time = .ok (some s) ∧ s.control = c.control ∧
          ∀ window fraction,
            (AssetState.seeded s window fraction).context.balance.Alike c.balance := by
  refine ⟨Decimal.readDecimal_toText_alike, fun r => ?_, fun r => ?_, fun r => ?_,
    fun t ht => ⟨?_, ht.exists_upsertRate, ?_⟩⟩
  · exact ⟨_, TransferRow.toTransfer_ofRecorded r, r.transfer.amount.alike_unsignedZero⟩
  · exact ⟨_, RateRow.toRate_ofRate r, r.fraction.alike_unsignedZero⟩
  · exact ⟨_, _, SnapshotRow.toRecord_ofRecord r, r.snapshot.fee.alike_unsignedZero,
      r.snapshot.balance.alike_unsignedZero⟩
  · obtain ⟨_, _, _, _, hholds⟩ := ht.holds
    exact hholds.readable
  · intro c account asset id created time t' rows hrows hinsert hcontrol hnewer
    exact exists_seeded hrows hinsert hcontrol hnewer

/-- A record with the largest mantissa at the largest scale, created at noon on a leap day, is read
back as it is, and a replay starts with its balance; a fraction of zero with a sign loses the sign
and nothing else. -/
theorem largest_balance_read_back :
    let largest : Decimal := ⟨false, 79228162514264337593543950335, 28, by decide, by decide⟩
    let negativeZero : Decimal := ⟨true, 0, 3, by decide, by decide⟩
    let c : Context := ⟨.zero, .zero, 100, largest⟩
    let noon : Time.Timestamp := ⟨⟨2024, 2, 29, 12, 0, 0, 0⟩, by decide⟩
    let record : SnapshotRecord := ⟨.given "1", c.snapshot "alice@bank" "usd#bank", .time noon⟩
    (∃ t' s, Tables.fresh.insertSnapshot (.ofRecord record) = .ok t' ∧
      t'.recordUpTo "alice@bank" "usd#bank" 120 = .ok (some ⟨.given "1", s, .time noon⟩) ∧
      t'.snapshotUpTo "alice@bank" "usd#bank" 120 = .ok (some s) ∧
      (AssetState.seeded s ⟨120, 200⟩ .one).context.balance = largest) ∧
    ∃ stored t', Tables.fresh.upsertRate ⟨"bank", "usd#bank", .exchange, negativeZero, 0, 0⟩ =
        .ok (stored, t') ∧
      stored.fraction.value = negativeZero.value ∧ stored.fraction.scale = 3 ∧
      stored.fraction ≠ negativeZero := by
  intro largest negativeZero c noon record
  obtain ⟨-, -, -, -, hwritten⟩ := records_read_back
  obtain ⟨-, hrates, hsnapshots⟩ := hwritten Tables.fresh .fresh
  constructor
  · have hinsert : ∃ t', Tables.fresh.insertSnapshot (.ofRecord record) = .ok t' := ⟨_, rfl⟩
    obtain ⟨t', hinsert⟩ := hinsert
    obtain ⟨s, hrecord, hfound, -, hseeded⟩ := hsnapshots c "alice@bank" "usd#bank" (.given "1")
      (.time noon) 120 t' [] rfl hinsert (by decide) (fun r hr => nomatch hr)
    have hplain : largest.Plain := fun hzero => absurd hzero (by decide)
    exact ⟨t', s, hinsert, hrecord, hfound, (hseeded ⟨120, 200⟩ .one).same.mpr hplain⟩
  · obtain ⟨stored, t', hstored, halike, -⟩ :=
      hrates ⟨"bank", "usd#bank", .exchange, negativeZero, 0, 0⟩
    refine ⟨stored, t', hstored, halike.value, halike.scale, fun hsame => ?_⟩
    exact absurd (halike.same.mp hsame rfl) (by decide)

end Tables

end Custodian
