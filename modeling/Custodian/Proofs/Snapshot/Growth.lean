import Custodian.Proofs.Database.Recording
import Custodian.Proofs.Replay.Report
import Custodian.Proofs.Snapshot.Seeding

/-!
# Snapshots while the ledger grows

A `History` alternates reports with batches of transfers that come after everything recorded
before. A report leaves a snapshot at the end of its window, also where that lies behind the
newest transfer, so a batch may still bring transfers from before the control point of a stored
snapshot; later walks pass over these. As long as no batch does, in the sense that what it
brings from before a control point adds up to nothing (`Tables.Undisturbed`), stored snapshots
stay sound and reports come to what they come to without snapshots. For the soundness of the
snapshots the condition is exact.
-/

namespace Custodian

/-! ## Stored snapshots and a batch -/

/-- What is added from before the control point of a stored snapshot leaves its balance. -/
def SnapshotRow.Undisturbed (new : Commits) (r : SnapshotRow) : Prop :=
  ∀ held, readDecimal r.balance = .ok held →
    ((new.ofAccount r.account r.control).ofAsset r.asset).balanceFrom r.account held = some held

/-- No stored snapshot is disturbed. -/
def Tables.Undisturbed (t : Tables) (new : Commits) : Prop :=
  t.ForSnapshots (SnapshotRow.Undisturbed new)

/-- What is stamped at the control point or behind it does not disturb a snapshot. -/
theorem SnapshotRow.undisturbed_of_stamps {new : Commits} {r : SnapshotRow}
    (h : ∀ t ∈ new, t.rejected = false → r.control ≤ t.occurredAt) : r.Undisturbed new := by
  intro held _
  have hnone : new.ofAccount r.account r.control = [] := by
    rw [List.eq_nil_iff_forall_not_mem]
    intro t ht
    obtain ⟨hmem, -, hrejected, hbefore⟩ := Commits.mem_ofAccount.mp ht
    exact Int64.not_le.mpr hbefore (h t hmem hrejected)
  rw [hnone]
  rfl

/-- A sound snapshot stays sound exactly if it is not disturbed. -/
theorem SnapshotRow.Sound.append_iff {ts new : Commits} {r : SnapshotRow} (h : r.Sound ts) :
    r.Sound (ts ++ new) ↔ r.Undisturbed new := by
  obtain ⟨held, hread, hheld⟩ := h
  unfold Undisturbed SnapshotRow.Sound
  rw [Commits.balanceBefore_append, hheld, hread, Option.bind_some]
  constructor
  · rintro ⟨held', heq, hsame⟩ held'' heq'
    cases heq
    cases heq'
    exact hsame
  · intro hsame
    exact ⟨held, rfl, hsame held rfl⟩

/-- Stored snapshots stay sound exactly if none is disturbed. -/
theorem Tables.Sound.append_iff {t : Tables} {ts new : Commits} (h : t.Sound ts) :
    t.Sound (ts ++ new) ↔ t.Undisturbed new := by
  constructor
  · intro hsound rows hrows r hr
    exact (h rows hrows r hr).append_iff.mp (hsound rows hrows r hr)
  · intro hundisturbed rows hrows r hr
    exact (h rows hrows r hr).append_iff.mpr (hundisturbed rows hrows r hr)

/-! ## Reports -/

/-- A report that may be asked for. -/
inductive Request where
  | account (id : String) (start stop : Int64)
  | accounts (domain : Option String) (start stop : Int64) (page : PageRequest)

/-- A ledger whose stamps ascend, short enough for its pages to be counted. -/
structure Ledger.Regular (config : Config) (ledger : Ledger) : Prop where
  ordered : ledger.committed.TimeOrdered
  fits : ∀ account stop,
    (ledger.committed.ofAccount account stop).length ≤ config.transferPageSize * maxPage

namespace Request

variable {config : Config} {W : World} {ledger : Ledger} {db : Database}

/-- The end of the window. -/
def stop : Request → Int64
  | .account _ _ stop => stop
  | .accounts _ _ stop _ => stop

/-- What a report gives. -/
abbrev Result : Request → Type
  | .account _ _ _ => Keyed AssetCustody
  | .accounts _ _ _ _ => Listing AccountCustody

/-- The report. -/
def report (config : Config) : (r : Request) → Attempt r.Result
  | .account id start stop => Report.account config id start stop
  | .accounts domain start stop page => Report.accounts config domain start stop page

/-- Runs the report on a database, with snapshots or without. -/
def run (config : Config) (snapshots : Bool) (r : Request) :
    StateM Database (Except Error r.Result) :=
  Report.runOn Database.stores (r.report (config.withSnapshots snapshots))

/-- What the report comes to in a world. -/
def outcome (config : Config) (W : World) : (r : Request) → Except Error r.Result
  | .account id start stop => Report.accountOutcome config W id start stop
  | .accounts domain start stop page => Report.accountsOutcome config W domain start stop page

theorem ensures_report (r : Request) (h : Report.Regular config W r.stop) :
    Dialogue.Ensures W.contract (· = r.outcome config W) (r.report config).run := by
  cases r with
  | account id start stop => exact Report.ensures_account h id start
  | accounts domain start stop page => exact Report.ensures_accounts h domain start page

/-- A report comes to its outcome with and without snapshots. It leaves sound snapshots, none
of them beyond the end of its window or those there were. -/
theorem run_eq_outcome (r : Request) (snapshots : Bool) {horizon : Option Int64}
    (hconfig : config.check = .ok ()) (hregular : ledger.Regular config)
    (hrecords : db.tables.Records ledger)
    (hreach : snapshots = true → ∃ time ∈ horizon, r.stop ≤ time)
    (hsound : ∀ time ∈ horizon, db.tables.SoundUpTo ledger.committed time) :
    ((r.run config snapshots).run db).1 =
        r.outcome config (Session.world ⟨.empty, db⟩ ledger none) ∧
      ((r.run config snapshots).run db).2.tables.Records ledger ∧
      ∀ time ∈ horizon,
        ((r.run config snapshots).run db).2.tables.SoundUpTo ledger.committed time := by
  have hreport : Report.Regular (config.withSnapshots snapshots)
      (Session.world ⟨.empty, db⟩ ledger horizon) r.stop :=
    ⟨hconfig, hreach, hregular.ordered, hregular.fits⟩
  have houtcome :
      r.outcome (config.withSnapshots snapshots) (Session.world ⟨.empty, db⟩ ledger horizon) =
        r.outcome config (Session.world ⟨.empty, db⟩ ledger none) := by
    cases r with
    | account id start stop => rfl
    | accounts domain start stop page => rfl
  obtain ⟨hresult, hholds⟩ := Session.of_runsTo hrecords hsound (r.ensures_report hreport)
    (Session.runsTo_answer _ ⟨.empty, db⟩)
  exact ⟨hresult.trans houtcome, hholds.records, hholds.sound⟩

end Request

/-! ## Histories -/

/-- The ledgers and databases that reports with snapshots and batches of transfers lead to,
from a database without transfers and snapshots. A batch adds what comes after everything
recorded before, and disturbs no stored snapshot. No report reaches beyond the horizon. Rates
and accounts may change in between. -/
inductive History (config : Config) : Ledger → Int64 → Database → Prop
  | start {db : Database} (htransfers : db.tables.transfers = some [])
      (hsnapshots : db.tables.snapshots = some []) (horizon : Int64) :
      History config [] horizon db
  | report {ledger : Ledger} {horizon horizon' : Int64} {db : Database}
      (h : History config ledger horizon db) (r : Request) (hhorizon : horizon ≤ horizon')
      (hstop : r.stop ≤ horizon') :
      History config ledger horizon' ((r.run config true).run db).2
  | record {ledger : Ledger} {horizon : Int64} {db : Database}
      (h : History config ledger horizon db) (hwriting : db.writing = true)
      (batch : List RecordedTransfer)
      (hafter : ∀ r ∈ ledger, ∀ r' ∈ ledger.added batch, r.position.le r'.position = true)
      (hregular : (ledger ++ ledger.added batch).Regular config)
      (hundisturbed : db.tables.Undisturbed (ledger.added batch).committed) :
      History config (ledger ++ ledger.added batch) horizon ((Database.record batch).run db).2
  | elsewhere {ledger : Ledger} {horizon : Int64} {db db' : Database}
      (h : History config ledger horizon db)
      (htransfers : db'.tables.transfers = db.tables.transfers)
      (hsnapshots : db'.tables.snapshots = db.tables.snapshots) :
      History config ledger horizon db'

/-- Alice receives two more Sample.units at 100 and pays one at 150. -/
def Sample.later : Ledger :=
  [⟨⟨3, 0, 0⟩, ⟨"treasury@bank", "alice@bank", "usd#bank", Sample.units 2, 100, false⟩⟩,
    ⟨⟨3, 0, 1⟩, ⟨"alice@bank", "treasury@bank", "usd#bank", Sample.units 1, 150, false⟩⟩]

namespace History

variable {config : Config} {ledger : Ledger} {horizon : Int64} {db : Database}

/-- In every history the tables hold the ledger, and every stored snapshot is sound and within
the horizon. -/
theorem invariant (hconfig : config.check = .ok ()) (h : History config ledger horizon db) :
    db.tables.Records ledger ∧ ledger.Regular config ∧
      db.tables.SoundUpTo ledger.committed horizon := by
  induction h with
  | start htransfers hsnapshots horizon =>
    refine ⟨htransfers, ⟨?_, fun account stop => ?_⟩, fun rows hrows r hr => ?_⟩
    · rw [Ledger.committed_of_pairwise List.Pairwise.nil]
      exact List.Pairwise.nil
    · rw [Ledger.committed_of_pairwise List.Pairwise.nil]
      exact Nat.zero_le _
    · rw [hsnapshots] at hrows
      cases hrows
      cases hr
  | @report ledger horizon horizon' db _ r hhorizon hstop ih =>
    obtain ⟨hrecords, hregular, hsound⟩ := ih
    have hstored : ∀ time ∈ some horizon', db.tables.SoundUpTo ledger.committed time := by
      rintro _ ⟨⟩
      exact hsound.mono hhorizon
    obtain ⟨-, hrecords', hsound'⟩ :=
      r.run_eq_outcome true hconfig hregular hrecords (fun _ => ⟨_, rfl, hstop⟩) hstored
    exact ⟨hrecords', hregular, hsound' _ rfl⟩
  | record _ hwriting batch hafter hregular hundisturbed ih =>
    obtain ⟨hrecords, -, hsound⟩ := ih
    have htables := Database.tables_record hwriting hrecords batch
    refine ⟨?_, hregular, fun rows hrows r hr => ?_⟩
    · rw [htables]
      rfl
    · rw [htables] at hrows
      obtain ⟨hrow, hwithin⟩ := hsound rows hrows r hr
      rw [Ledger.committed_append hafter]
      exact ⟨hrow.append_iff.mpr (hundisturbed rows hrows r hr), hwithin⟩
  | elsewhere _ htransfers hsnapshots ih =>
    obtain ⟨hrecords, hregular, hsound⟩ := ih
    refine ⟨htransfers.trans hrecords, hregular, fun rows hrows => ?_⟩
    exact hsound rows (hsnapshots ▸ hrows)

/-- After every history each report comes to what it comes to without snapshots. The condition
on batches is exact for the snapshots: they go on carrying the balance from before their control
point if and only if the next batch does not disturb them. It does not if it is stamped at the
horizon or behind it. -/
theorem report_eq_without_snapshots (hconfig : config.check = .ok ())
    (h : History config ledger horizon db) :
    (∀ r : Request, ((r.run config true).run db).1 = ((r.run config false).run db).1) ∧
      ∀ batch, (∀ r ∈ ledger, ∀ r' ∈ ledger.added batch, r.position.le r'.position = true) →
        (db.tables.Sound (Ledger.committed (ledger ++ ledger.added batch)) ↔
          db.tables.Undisturbed (ledger.added batch).committed) ∧
        ((∀ r ∈ ledger.added batch, r.transfer.rejected = false →
          horizon ≤ r.transfer.occurredAt) →
          db.tables.Undisturbed (ledger.added batch).committed) := by
  obtain ⟨hrecords, hregular, hsound⟩ := h.invariant hconfig
  refine ⟨fun r => ?_, fun batch hafter => ⟨?_, fun hstamps rows hrows r hr => ?_⟩⟩
  · have hstored : ∀ time ∈ some Int64.maxValue, db.tables.SoundUpTo ledger.committed time := by
      rintro _ ⟨⟩
      exact hsound.sound.upTo_maxValue
    have hunused : ∀ time ∈ none, db.tables.SoundUpTo ledger.committed time := by
      rintro _ ⟨⟩
    have hwith := r.run_eq_outcome true hconfig hregular hrecords
      (fun _ => ⟨_, rfl, Int64.le_maxValue _⟩) hstored
    have hwithout := r.run_eq_outcome false hconfig hregular hrecords
      (fun h => absurd h Bool.false_ne_true) hunused
    exact hwith.1.trans hwithout.1.symm
  · rw [Ledger.committed_append hafter]
    exact hsound.sound.append_iff
  · refine SnapshotRow.undisturbed_of_stamps fun t ht hrejected => ?_
    obtain ⟨added, hadded, rfl⟩ := List.mem_map.mp ht
    have hmem := List.mem_mergeSort.mp hadded
    exact Int64.le_trans (hsound rows hrows r hr).2 (hstamps added hmem hrejected)

/-- A report leaves a snapshot, a batch from behind the end of its window comes in, and the
next report goes on from the snapshot. -/
theorem report_sample_eq_without_snapshots :
    let recorded := ((Database.record Sample.ledger).run
      (.ofTables { Sample.tables [] with transfers := some [] })).2
    let reported := (((Request.account "alice@bank" 20 100).run .default true).run recorded).2
    let grown := ((Database.record Sample.later).run reported).2
    reported.tables.snapshots.map (·.map fun r => (r.control, r.balance)) = some [(60, "50")] ∧
      reported.tables.Undisturbed Sample.later.committed ∧
      (((Request.account "alice@bank" 100 200).run .default true).run grown).1 =
        (((Request.account "alice@bank" 100 200).run .default false).run grown).1 := by
  intro recorded reported grown
  have hadded : Ledger.added [] Sample.ledger = Sample.ledger := by decide
  have hstart : History .default [] 0 (.ofTables { Sample.tables [] with transfers := some [] }) :=
    .start rfl rfl 0
  have hrecorded : History .default ([] ++ Ledger.added [] Sample.ledger) 0 recorded := by
    refine hstart.record rfl Sample.ledger (fun r hr => (nomatch hr)) ?_ ?_
    · rw [hadded]
      exact ⟨Sample.timeOrdered, fun id stop => Nat.le_trans (Sample.fits id stop) (by decide)⟩
    · intro rows hrows r hr
      cases hrows
      cases hr
  rw [hadded, List.nil_append] at hrecorded
  have hreported : History .default Sample.ledger 100 reported :=
    hrecorded.report (.account "alice@bank" 20 100) (by decide) (by decide)
  have hstored : reported =
      ((((Walk.make .default ⟨20, 100⟩ Sample.account).afterPage (.ok Sample.page) >>=
        fun custody => return custody.assets).run.run (Session.answer Database.stores)).run
          ⟨.empty, recorded⟩).2.stores := by
    show (((Report.account .default "alice@bank" 20 100).run.run
      (Session.answer Database.stores)).run ⟨.empty, recorded⟩).2.stores = _
    rw [Sample.run_report (hrecorded.invariant (by decide)).1]
  have hwriting : reported.writing = true := by
    rw [hstored]
    decide +kernel
  -- nothing in the second batch is from before the end of the first report's window
  have hlater : Sample.ledger.added Sample.later = Sample.later := by decide
  have hafter : ∀ r ∈ Sample.ledger, ∀ r' ∈ Sample.ledger.added Sample.later,
      r.position.le r'.position = true := by
    rw [hlater]
    decide
  have hundisturbed : reported.tables.Undisturbed (Sample.ledger.added Sample.later).committed := by
    refine ((report_eq_without_snapshots (by decide) hreported).2 Sample.later hafter).2 ?_
    rw [hlater]
    decide
  have hregular : (Sample.ledger ++ Sample.ledger.added Sample.later).Regular .default := by
    rw [hlater]
    have hcommitted := Ledger.committed_of_pairwise
      (show (Sample.ledger ++ Sample.later).Pairwise _ by decide)
    refine ⟨?_, fun id stop => Nat.le_trans (List.length_filter_le _ _) ?_⟩
    · rw [hcommitted]
      decide
    · rw [hcommitted]
      decide
  have hgrown := hreported.record hwriting Sample.later hafter hregular hundisturbed
  refine ⟨?_, hlater ▸ hundisturbed,
    (report_eq_without_snapshots (by decide) hgrown).1 (.account "alice@bank" 100 200)⟩
  rw [hstored]
  decide +kernel

end History

end Custodian
