import Custodian.Database.Basic
import Custodian.Proofs.Database.Listing
import Custodian.Proofs.Replay.World
import Custodian.Replay.Session

/-!
# Sessions over a database keep the contract of a world

A session answers from the tables and its memo. `Session.Step` adds faults to that: any
look-up of a snapshot and any recording of one may fail, and a recording that took effect may
be reported as failed. As long as the tables record a ledger (`Tables.Records`) and every
stored snapshot is sound (`Tables.Sound`), answers keep the contract of the world that the
session looks at, and both stay so (`Session.keeps`).
-/

namespace Custodian

/-- The balance of a row, as it is read back, is what the account holds just before the
control point. -/
def SnapshotRow.Sound (ts : Commits) (r : SnapshotRow) : Prop :=
  ∃ held, readDecimal r.balance = .ok held ∧
    ts.balanceBefore r.account r.asset r.control = some held

/-- A sound row is read back as a sound snapshot. -/
theorem SnapshotRow.Sound.toRecord {ts : Commits} {r : SnapshotRow} {record : SnapshotRecord}
    (h : r.Sound ts) (hread : r.toRecord = .ok record) :
    record.snapshot.account = r.account ∧ record.snapshot.asset = r.asset ∧
      record.snapshot.control = r.control ∧ record.snapshot.Sound ts := by
  obtain ⟨held, hheld, hbefore⟩ := h
  unfold SnapshotRow.toRecord at hread
  obtain ⟨loaded, hload, hread⟩ := except_bind_eq_ok_iff.mp hread
  unfold SnapshotRow.load at hload
  obtain ⟨created, -, hload⟩ := except_bind_eq_ok_iff.mp hload
  cases hload
  unfold LoadedSnapshot.toRecord at hread
  obtain ⟨fee, -, hread⟩ := except_bind_eq_ok_iff.mp hread
  obtain ⟨balance, hbalance, hread⟩ := except_bind_eq_ok_iff.mp hread
  cases hread
  rw [hheld] at hbalance
  cases hbalance
  exact ⟨rfl, rfl, rfl, hbefore⟩

/-- A sound snapshot of a ledger is stored in a sound row. -/
theorem SnapshotRow.sound_ofSnapshot {ledger : Ledger} {s : Snapshot} (id : SnapshotId)
    (created : CreationTime) (h : s.Sound ledger.committed) :
    (SnapshotRow.ofSnapshot id s created).Sound ledger.committed := by
  have hplain := Commits.plain_balanceBefore (fun _ ht => Ledger.plain_of_mem_committed ht) h
  refine ⟨s.balance, ?_, h⟩
  show readDecimal s.balance.toText = _
  rw [readDecimal_toText, hplain.unsignedZero]

/-! ## Rows in their tables -/

namespace Tables

variable {t t' : Tables} {rows : List SnapshotRow} {r : SnapshotRow}

/-- The rows of a table that is there. -/
theorem rows_eq_ok {α : Type} {name : TableName} {table : Option (List α)} {rows : List α}
    (h : Tables.rows name table = .ok rows) : table = some rows := by
  unfold Tables.rows at h
  split at h
  · cases h
    rfl
  · cases h

/-- A row that is inserted comes last, and clashes with none that is there. -/
theorem insertInto_eq_ok {α : Type} {rows rows' : List α} {row : α}
    {keys : List ((α → α → Bool) × Error)} (h : insertInto rows row keys = .ok rows') :
    rows' = rows ++ [row] ∧ ∀ key ∈ keys, ∀ r ∈ rows, key.1 r row = false := by
  unfold insertInto at h
  split at h
  · cases h
  · rename_i hfree
    cases h
    refine ⟨rfl, fun key hkey r hr => ?_⟩
    have hany := List.find?_eq_none.mp hfree key hkey
    rw [Bool.not_eq_true, List.any_eq_false] at hany
    exact Bool.eq_false_iff.mpr (hany r hr)

/-- The newest of several rows is one of them. -/
theorem mem_of_newest (h : newest rows = some r) : r ∈ rows := by
  have hmem : ∀ r, newest rows = some r → r ∈ rows := by
    unfold newest
    refine List.foldlRecOn rows _ (motive := fun best => ∀ r, best = some r → r ∈ rows)
      (fun r h => nomatch h) fun best hbest r' hr' r h => ?_
    rcases best with _ | b
    · cases h
      exact hr'
    · simp only at h
      split at h
      · cases h
        exact hr'
      · exact hbest r h
  exact hmem r h

/-- A record that is found comes from a row of the asset, at or before the instant. -/
theorem recordUpTo_eq_some {account asset : String} {time : Int64} {record : SnapshotRecord}
    (h : t.recordUpTo account asset time = .ok (some record)) :
    ∃ rows r, t.snapshots = some rows ∧ r ∈ rows ∧ r.account = account ∧ r.asset = asset ∧
      r.control ≤ time ∧ r.toRecord = .ok record := by
  unfold recordUpTo at h
  obtain ⟨rows, hrows, h⟩ := except_bind_eq_ok_iff.mp h
  have htable := rows_eq_ok hrows
  simp only at h
  split at h
  · cases h
  · rename_i r hnewest
    obtain ⟨record', hrecord', h⟩ := except_bind_eq_ok_iff.mp h
    cases h
    have hmem := mem_of_newest hnewest
    rw [List.mem_filter, Bool.and_eq_true, isSnapshotOf, Bool.and_eq_true, beq_iff_eq,
      beq_iff_eq, decide_eq_true_eq] at hmem
    obtain ⟨hmem, ⟨haccount, hasset⟩, hle⟩ := hmem
    exact ⟨rows, r, htable, hmem, haccount, hasset, hle, hrecord'⟩

/-- A snapshot that is found is that of a record that is found. -/
theorem snapshotUpTo_eq_some {account asset : String} {time : Int64} {s : Snapshot}
    (h : t.snapshotUpTo account asset time = .ok (some s)) :
    ∃ record, t.recordUpTo account asset time = .ok (some record) ∧ record.snapshot = s := by
  unfold snapshotUpTo at h
  obtain ⟨found, hfound, h⟩ := except_bind_eq_ok_iff.mp h
  rcases found with _ | record
  · cases h
  · cases h
    exact ⟨record, hfound, rfl⟩

/-- A snapshot that is inserted comes last, and nothing else changes. -/
theorem insertSnapshot_eq_ok (h : t.insertSnapshot r = .ok t') :
    ∃ rows, t.snapshots = some rows ∧ t' = { t with snapshots := some (rows ++ [r]) } := by
  unfold insertSnapshot at h
  obtain ⟨rows, hrows, h⟩ := except_bind_eq_ok_iff.mp h
  obtain ⟨rows', hinsert, h⟩ := except_bind_eq_ok_iff.mp h
  cases h
  obtain ⟨rfl, -⟩ := insertInto_eq_ok hinsert
  exact ⟨rows, rows_eq_ok hrows, rfl⟩

end Tables

/-- The table of transfers is that of a ledger. -/
def Tables.Records (t : Tables) (ledger : Ledger) : Prop :=
  t.transfers = some (ledger.map TransferRow.ofRecorded)

/-- Every stored snapshot has a property. -/
def Tables.ForSnapshots (t : Tables) (p : SnapshotRow → Prop) : Prop :=
  ∀ rows, t.snapshots = some rows → ∀ r ∈ rows, p r

/-- Every stored snapshot is sound. -/
def Tables.Sound (t : Tables) (ts : Commits) : Prop := t.ForSnapshots (SnapshotRow.Sound ts)

/-- Every stored snapshot is sound, and none reaches beyond an instant. -/
def Tables.SoundUpTo (t : Tables) (ts : Commits) (horizon : Int64) : Prop :=
  t.ForSnapshots fun r => r.Sound ts ∧ r.control ≤ horizon

theorem Tables.SoundUpTo.sound {t : Tables} {ts : Commits} {horizon : Int64}
    (h : t.SoundUpTo ts horizon) : t.Sound ts := fun rows hrows r hr => (h rows hrows r hr).1

theorem Tables.SoundUpTo.mono {t : Tables} {ts : Commits} {horizon horizon' : Int64}
    (h : t.SoundUpTo ts horizon) (hle : horizon ≤ horizon') : t.SoundUpTo ts horizon' :=
  fun rows hrows r hr => ⟨(h rows hrows r hr).1, Int64.le_trans (h rows hrows r hr).2 hle⟩

/-- No snapshot reaches beyond the last instant there is. -/
theorem Tables.Sound.upTo_maxValue {t : Tables} {ts : Commits} (h : t.Sound ts) :
    t.SoundUpTo ts Int64.maxValue := fun rows hrows r hr =>
  ⟨h rows hrows r hr, r.control.le_maxValue⟩

/-- A row with the property may be added. -/
theorem Tables.ForSnapshots.append {t : Tables} {p : SnapshotRow → Prop}
    {rows : List SnapshotRow} {r : SnapshotRow} (h : t.ForSnapshots p)
    (hrows : t.snapshots = some rows) (hr : p r) :
    ({ t with snapshots := some (rows ++ [r]) } : Tables).ForSnapshots p := by
  intro rows' hrows' r' hr'
  cases hrows'
  rcases List.mem_append.mp hr' with hr' | hr'
  · exact h rows hrows r' hr'
  · rw [List.mem_singleton.mp hr']
    exact hr

/-! ## Rates through a memo -/

namespace RateMemo

variable {m : RateMemo} {scope asset : String}

theorem find?_insert (m : RateMemo) (scope asset scope' asset' : String) (fraction : Decimal) :
    (m.insert scope asset fraction).find? scope' asset' =
      if scope' = scope ∧ asset' = asset then some fraction else m.find? scope' asset' := by
  unfold find? insert
  rw [List.lookup_cons]
  by_cases h : scope' = scope ∧ asset' = asset
  · rw [if_pos h, h.1, h.2, beq_self_eq_true]
  · have hne : ((scope', asset') == (scope, asset)) = false := by
      rw [beq_eq_false_iff_ne]
      intro heq
      cases heq
      exact h ⟨rfl, rfl⟩
    rw [if_neg h, hne]

/-- A usable rate is one that the directory has, in `(0, 1]`. -/
theorem judge_eq_ok_iff {answer : Except Error (Option Decimal)} {fraction : Decimal} :
    judge scope asset answer = .ok fraction ↔
      answer = .ok (some fraction) ∧ checkFraction fraction = .ok () := by
  have hfound : ∀ found, judge scope asset (.ok (some found)) =
      (checkFraction found).map fun _ => found := fun _ => rfl
  rcases answer with e | _ | found
  · exact ⟨fun h => (nomatch h), fun h => (nomatch h.1)⟩
  · exact ⟨fun h => (nomatch h), fun h => (nomatch h.1)⟩
  · rw [hfound]
    constructor
    · intro h
      rcases hcheck : checkFraction found with e | ⟨⟩
      · rw [hcheck] at h
        cases h
      · rw [hcheck] at h
        cases h
        exact ⟨rfl, hcheck⟩
    · rintro ⟨hsame, hcheck⟩
      cases hsame
      rw [hcheck]
      rfl

/-- An answer that is not usable is an error of the directory, or one that concerns the asset. -/
theorem of_judge_eq_error {answer : Except Error (Option Decimal)} {e : Error}
    (h : judge scope asset answer = .error e) : answer = .error e ∨ e.assetScoped = true := by
  rcases answer with e' | _ | found
  · cases h
    exact .inl rfl
  · cases h
    exact .inr rfl
  · right
    have hjudge : judge scope asset (.ok (some found)) =
        (checkFraction found).map fun _ => found := rfl
    rw [hjudge] at h
    rcases hcheck : checkFraction found with e' | ⟨⟩
    · rw [hcheck] at h
      cases h
      exact Context.failsScoped_checkFraction _ hcheck
    · rw [hcheck] at h
      cases h

/-- The fraction of an asset: from the memo, or else as the directory's answer is judged. -/
def rate (m : RateMemo) (t : Tables) (scope asset : String) : Except Error Decimal :=
  match m.find? scope asset with
  | some fraction => .ok fraction
  | none => judge scope asset (t.findCustodyRate scope asset)

theorem rate_of_find? {t : Tables} {fraction : Decimal} (h : m.find? scope asset = some fraction) :
    m.rate t scope asset = .ok fraction := by
  unfold rate
  rw [h]

theorem rate_of_find?_eq_none {t : Tables} (h : m.find? scope asset = none) :
    m.rate t scope asset = judge scope asset (t.findCustodyRate scope asset) := by
  unfold rate
  rw [h]

/-- What is learnt is what would be judged again. -/
theorem rate_learn {t : Tables} (h : m.find? scope asset = none) :
    (m.learn scope asset (judge scope asset (t.findCustodyRate scope asset))).rate t =
      m.rate t := by
  rcases hjudged : judge scope asset (t.findCustodyRate scope asset) with e | fraction
  · rfl
  · refine funext fun scope' => funext fun asset' => ?_
    unfold rate
    rw [learn, find?_insert]
    by_cases hsame : scope' = scope ∧ asset' = asset
    · rw [if_pos hsame, hsame.1, hsame.2, h, hjudged]
    · rw [if_neg hsame]

/-- A rate that is not in the memo is looked up in the directory, judged, and learnt. Only a
missing rate leaves a notice. -/
theorem resolve_of_find?_eq_none (h : m.find? scope asset = none) (db : Database) :
    let judged := judge scope asset (db.tables.findCustodyRate scope asset)
    ∃ notices, (m.resolve Database.stores scope asset).run db =
      ((judged, m.learn scope asset judged), { db with notices := notices }) := by
  have hrun : ∀ answer, db.tables.findCustodyRate scope asset = answer →
      ∃ notices, (m.resolve Database.stores scope asset).run db =
        ((judge scope asset answer, m.learn scope asset (judge scope asset answer)),
          { db with notices := notices }) := by
    intro answer hanswer
    have hread : (Database.stores.rate scope asset).run db = (answer, db) := by
      rw [← hanswer]
      rfl
    unfold resolve
    rw [h]
    dsimp only
    rw [StateT.run_bind, hread]
    rcases answer with e | _ | fraction
    · exact ⟨db.notices, rfl⟩
    · exact ⟨db.notices ++ [.rateMissing asset scope], rfl⟩
    · exact ⟨db.notices, rfl⟩
  exact hrun _ rfl

/-- Over a database a look-up gives the rate. At most a notice is left, and rates stay as they
are. -/
theorem resolve_database (m : RateMemo) (db : Database) (scope asset : String) :
    ∃ (m' : RateMemo) (notices : List Notice),
      (m.resolve Database.stores scope asset).run db =
          ((m.rate db.tables scope asset, m'), { db with notices := notices }) ∧
        m'.rate db.tables = m.rate db.tables := by
  rcases hmemo : m.find? scope asset with _ | fraction
  · obtain ⟨notices, hrun⟩ := resolve_of_find?_eq_none hmemo db
    refine ⟨_, notices, hrun.trans ?_, rate_learn hmemo⟩
    rw [rate_of_find?_eq_none hmemo]
  · unfold resolve
    rw [hmemo, rate_of_find? hmemo]
    exact ⟨m, db.notices, rfl, rfl⟩

end RateMemo

/-! ## Sessions -/

namespace Database

variable {α : Type} {transaction : Transaction α} {db : Database}

theorem write_of_ok {a : α} {tables : Tables} (hwriting : db.writing = true)
    (h : transaction db.tables = .ok (a, tables)) :
    (write transaction).run db = (.ok a, { db with tables := tables }) := by
  refine (if_pos hwriting).trans ?_
  rw [h]

theorem write_of_error {e : Error} (hwriting : db.writing = true)
    (h : transaction db.tables = .error e) :
    (write transaction).run db = (.error (StorageFault.engine e).toError, db) := by
  refine (if_pos hwriting).trans ?_
  rw [h]

theorem write_of_stopped (hwriting : db.writing ≠ true) :
    (write transaction).run db = (.error writerStopped, db) := if_neg hwriting

/-- A write leaves the tables alone, or leaves those of its transaction. -/
theorem tables_write (transaction : Transaction α) (db : Database) :
    ((write transaction).run db).2.tables = db.tables ∨
      ∃ a, transaction db.tables = .ok (a, ((write transaction).run db).2.tables) := by
  by_cases hwriting : db.writing = true
  · rcases h : transaction db.tables with e | ⟨a, tables⟩
    · rw [write_of_error hwriting h]
      exact .inl rfl
    · rw [write_of_ok hwriting h]
      exact .inr ⟨a, rfl⟩
  · rw [write_of_stopped hwriting]
    exact .inl rfl

/-- Recording a snapshot adds its row at the end of its table, or changes no table. -/
theorem tables_appendWritten (s : Snapshot) (db : Database) :
    ((appendWritten s).run db).2.tables = db.tables ∨
      ∃ rows, db.tables.snapshots = some rows ∧
        ((appendWritten s).run db).2.tables =
          { db.tables with
            snapshots :=
              some (rows ++ [.ofSnapshot (.generated db.written) s (.written db.written)]) } := by
  rcases tables_write (fun t => do
    return ((), ← t.insertSnapshot
      (.ofSnapshot (.generated db.written) s (.written db.written)))) db with hsame | ⟨_, hwritten⟩
  · exact .inl hsame
  · obtain ⟨tables, hinsert, heq⟩ := except_bind_eq_ok_iff.mp hwritten
    obtain ⟨rows, htable, htables⟩ := Tables.insertSnapshot_eq_ok hinsert
    refine .inr ⟨rows, htable, ?_⟩
    rw [← htables]
    cases heq
    rfl

/-- No write starts or stops the writer. -/
theorem writing_write (transaction : Transaction α) (db : Database) :
    ((write transaction).run db).2.writing = db.writing := by
  by_cases hwriting : db.writing = true
  · rcases h : transaction db.tables with e | ⟨a, tables⟩
    · rw [write_of_error hwriting h]
    · rw [write_of_ok hwriting h]
  · rw [write_of_stopped hwriting]

theorem writing_appendWritten (s : Snapshot) (db : Database) :
    ((appendWritten s).run db).2.writing = db.writing :=
  writing_write (fun t => do
    return ((), ← t.insertSnapshot
      (.ofSnapshot (.generated db.written) s (.written db.written)))) db

end Database

namespace Session

/-- The fraction of an asset as a session sees it. -/
def rate (s : Session Database) : String → String → Except Error Decimal :=
  s.memo.rate s.stores.tables

/-- The world that a session over a ledger looks at, with snapshots up to a horizon or without
snapshots. -/
def world (s : Session Database) (ledger : Ledger) (horizon : Option Int64) : World :=
  ⟨ledger.committed, s.rate, s.stores.tables.listAccounts, horizon⟩

/-- How a session may answer, faults of the snapshot store included. -/
inductive Step : Dialogue.Answering (Session Database)
  | answered (s : Session Database) (q : Question) :
      Step s q ((answer Database.stores q).run s).1 ((answer Database.stores q).run s).2
  | lookupFailed (s : Session Database) (account asset : String) (time : Int64) (e : Error) :
      Step s (.snapshot account asset time) (.error e) s
  | recordingFailed (s : Session Database) (snapshot : Snapshot) (e : Error) :
      Step s (.append snapshot) (.error e) s
  | recordingUnconfirmed (s : Session Database) (snapshot : Snapshot) (e : Error) :
      Step s (.append snapshot) (.error e)
        ((answer Database.stores (.append snapshot)).run s).2

/-- Running a dialogue without faults is one of its runs. -/
theorem runsTo_answer {α : Type} (d : Dialogue α) (s : Session Database) :
    d.RunsTo Step s ((d.run (answer Database.stores)).run s).1
      ((d.run (answer Database.stores)).run s).2 :=
  Dialogue.runsTo_run Step.answered d s

/-- The session looks at a given world, and the snapshots of that world are sound. -/
structure Holds (ledger : Ledger) (W : World) (s : Session Database) : Prop where
  records : s.stores.tables.Records ledger
  sound : ∀ horizon ∈ W.horizon, s.stores.tables.SoundUpTo ledger.committed horizon
  world : s.world ledger W.horizon = W

variable {ledger : Ledger} {W : World} {s s' : Session Database}

/-- Tables and rates decide what a session holds. -/
theorem Holds.congr (h : Holds ledger W s) (htables : s'.stores.tables = s.stores.tables)
    (hrate : s'.rate = s.rate) : Holds ledger W s' := by
  refine ⟨htables ▸ h.records, htables ▸ h.sound, ?_⟩
  refine Eq.trans ?_ h.world
  unfold Session.world
  rw [htables, hrate]

/-- A look-up of a rate is answered with the rate. At most a notice is left, and rates stay as they
are. -/
theorem answer_rate (s : Session Database) (scope asset : String) :
    ∃ (m : RateMemo) (notices : List Notice),
      (answer Database.stores (.rate scope asset)).run s =
          (s.rate scope asset, ⟨m, { s.stores with notices := notices }⟩) ∧
        m.rate s.stores.tables = s.rate := by
  obtain ⟨m, notices, hresolve, hrate⟩ := s.memo.resolve_database s.stores scope asset
  refine ⟨m, notices, ?_, hrate⟩
  show (let ((result, memo), state) :=
      (s.memo.resolve Database.stores scope asset).run s.stores
    ((result, ⟨memo, state⟩) : Except Error Decimal × Session Database)) = _
  rw [hresolve]
  rfl

/-- Recording a snapshot changes at most the table of snapshots. -/
theorem tables_answer_append (s : Session Database) (snapshot : Snapshot) :
    ∃ snapshots, ((answer Database.stores (.append snapshot)).run s).2.stores.tables =
      { s.stores.tables with snapshots := snapshots } := by
  rcases Database.tables_appendWritten snapshot s.stores with hsame | ⟨rows, -, hwritten⟩
  · exact ⟨_, hsame⟩
  · exact ⟨_, hwritten⟩

/-- No answer changes more than the table of snapshots. -/
theorem Step.tables_eq {q : Question} {a : q.Answer} (h : Step s q a s') :
    ∃ snapshots, s'.stores.tables = { s.stores.tables with snapshots := snapshots } := by
  cases h with
  | answered _ _ =>
    rcases q with _ | _ | ⟨scope, asset⟩ | _ | snapshot | _ | _
    · exact ⟨_, rfl⟩
    · exact ⟨_, rfl⟩
    · obtain ⟨m, notices, hrun, -⟩ := answer_rate s scope asset
      rw [hrun]
      exact ⟨_, rfl⟩
    · exact ⟨_, rfl⟩
    · exact tables_answer_append s snapshot
    · exact ⟨_, rfl⟩
    · exact ⟨_, rfl⟩
  | lookupFailed => exact ⟨_, rfl⟩
  | recordingFailed => exact ⟨_, rfl⟩
  | recordingUnconfirmed _ snapshot => exact tables_answer_append s snapshot

/-- No answer starts or stops the writer. -/
theorem Step.writing_eq {q : Question} {a : q.Answer} (h : Step s q a s') :
    s'.stores.writing = s.stores.writing := by
  cases h with
  | answered _ _ =>
    rcases q with _ | _ | ⟨scope, asset⟩ | _ | snapshot | _ | _
    · rfl
    · rfl
    · obtain ⟨m, notices, hrun, -⟩ := answer_rate s scope asset
      rw [hrun]
    · rfl
    · exact Database.writing_appendWritten snapshot s.stores
    · rfl
    · rfl
  | lookupFailed => rfl
  | recordingFailed => rfl
  | recordingUnconfirmed _ snapshot => exact Database.writing_appendWritten snapshot s.stores

/-- Recording a sound snapshot leaves only sound rows. -/
theorem Holds.append (h : Holds ledger W s) {snapshot : Snapshot}
    (hreach : W.Reaches snapshot.control) (hsound : snapshot.Sound ledger.committed) :
    Holds ledger W ((answer Database.stores (.append snapshot)).run s).2 := by
  have hrow := SnapshotRow.sound_ofSnapshot (.generated s.stores.written)
    (.written s.stores.written) hsound
  have htables : ((answer Database.stores (.append snapshot)).run s).2.stores.tables =
      ((Database.appendWritten snapshot).run s.stores).2.tables := rfl
  have hmemo : ((answer Database.stores (.append snapshot)).run s).2.memo = s.memo := rfl
  generalize ((answer Database.stores (.append snapshot)).run s).2 = s' at htables hmemo ⊢
  rcases Database.tables_appendWritten snapshot s.stores with hsame | ⟨rows, hrows, hwritten⟩
  · refine h.congr (htables.trans hsame) ?_
    unfold Session.rate
    rw [hmemo, htables, hsame]
  · rw [hwritten] at htables
    refine ⟨?_, fun horizon hhorizon => ?_, Eq.trans ?_ h.world⟩
    · rw [htables]
      exact h.records
    · rw [htables]
      obtain ⟨horizon', hhorizon', hle⟩ := hreach
      cases Option.mem_unique hhorizon hhorizon'
      exact (h.sound horizon hhorizon).append hrows ⟨hrow, hle⟩
    · unfold Session.world Session.rate
      rw [hmemo, htables]
      rfl

/-- Answers are allowed, and the session looks at the same world afterwards. -/
theorem keeps (hledger : W.transfers = ledger.committed) :
    Dialogue.Keeps W.contract Step (Holds ledger W) := by
  intro s q a t hs hasked hstep
  cases hstep with
  | answered _ _ =>
    rcases q with ⟨account, stop, page⟩ | ⟨domain, page⟩ | ⟨scope, asset⟩ |
      ⟨account, asset, time⟩ | snapshot | _ | notice
    · refine ⟨?_, hs⟩
      show s.stores.tables.listTransfers account stop page = _
      rw [Tables.listTransfers_ofRecorded hs.records hasked, World.listing, hledger]
    · refine ⟨?_, hs⟩
      show s.stores.tables.listAccounts domain page = _
      rw [← hs.world]
      rfl
    · obtain ⟨m, notices, hrun, hrate⟩ := answer_rate s scope asset
      rw [hrun]
      refine ⟨?_, hs.congr rfl hrate⟩
      show s.rate scope asset = W.rate scope asset
      rw [← hs.world]
      rfl
    · refine ⟨fun snapshot hfound => ?_, hs⟩
      obtain ⟨record, hrecord, rfl⟩ := Tables.snapshotUpTo_eq_some hfound
      obtain ⟨rows, r, htable, hr, rfl, rfl, hle, hread⟩ := Tables.recordUpTo_eq_some hrecord
      obtain ⟨horizon, hhorizon⟩ := Option.isSome_iff_exists.mp hasked
      obtain ⟨hrow, -⟩ := hs.sound horizon hhorizon rows htable r hr
      obtain ⟨haccount, hasset, hcontrol, hsound⟩ := hrow.toRecord hread
      exact ⟨haccount, hasset, hcontrol ▸ hle, hledger ▸ hsound⟩
    · exact ⟨trivial, hs.append hasked.1 (hledger ▸ hasked.2)⟩
    · exact ⟨trivial, hs⟩
    · exact ⟨trivial, hs.congr rfl rfl⟩
  | lookupFailed _ account asset time e => exact ⟨fun s h => (nomatch h), hs⟩
  | recordingFailed _ snapshot e => exact ⟨trivial, hs⟩
  | recordingUnconfirmed _ snapshot e =>
    exact ⟨trivial, hs.append hasked.1 (hledger ▸ hasked.2)⟩

/-- Whatever a dialogue ensures in the world that a session looks at holds at the end of each
of its runs, faults included, and the session looks at the same world then. -/
theorem of_runsTo {α : Type} {d : Dialogue α} {post : α → Prop} {value : α}
    {horizon : Option Int64} (hrecords : s.stores.tables.Records ledger)
    (hsound : ∀ time ∈ horizon, s.stores.tables.SoundUpTo ledger.committed time)
    (hd : d.Ensures (s.world ledger horizon).contract post) (hrun : d.RunsTo Step s value s') :
    post value ∧ Holds ledger (s.world ledger horizon) s' :=
  hd.of_runsTo (keeps rfl) hrun ⟨hrecords, hsound, rfl⟩

end Session

end Custodian
