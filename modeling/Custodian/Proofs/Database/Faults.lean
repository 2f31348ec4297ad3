import Custodian.Proofs.Database.Lookups
import Custodian.Proofs.Dialogue.Oracle

/-!
# A report is answered as its session first stood

Snapshot stores may fail in a fixed way: the look-ups of certain assets, and the recordings of
certain assets at certain control points (`SnapshotFaults`). Everything that a report asks over
such stores is answered as it would have been when the report began, recordings included. So the
report is a dialogue with an oracle (`Session.oracle`), and what it adds to the table of
snapshots is what it records with this oracle (`Session.run_eq_oracle`).

Nothing is asked of the stored snapshots, except that the ids still to be made up are not among
theirs (`Database.Fresh`).
-/

namespace Custodian

/-! ## Faults -/

/-- Which look-ups of snapshots fail, by asset, and which recordings, by asset and control point;
and the errors with which they do. -/
structure SnapshotFaults where
  lookup : String → Option Error
  recording : String → Int64 → Option Error

/-- The stores with these faults. What fails has no effect. -/
def Stores.withFaults {σ : Type} (stores : Stores σ) (faults : SnapshotFaults) : Stores σ :=
  { stores with
    snapshot := fun account asset time =>
      match faults.lookup asset with
      | some e => pure (.error e)
      | none => stores.snapshot account asset time
    append := fun snapshot =>
      match faults.recording snapshot.asset snapshot.control with
      | some e => pure (.error e)
      | none => stores.append snapshot }

/-- Nothing fails by itself. -/
def SnapshotFaults.none : SnapshotFaults := ⟨fun _ => .none, fun _ _ => .none⟩

/-! ## What is recorded -/

/-- A row without its id and its time of creation, which are made up as it is written. -/
def SnapshotRow.unstamped (r : SnapshotRow) : SnapshotRow :=
  { r with id := .generated 0, created := .written 0 }

/-- The row of a snapshot without id and time of creation. -/
def Snapshot.unstamped (s : Snapshot) : SnapshotRow := .ofSnapshot (.generated 0) s (.written 0)

namespace Database

/-- No stored snapshot has an id that is yet to be made up. -/
def Fresh (db : Database) : Prop :=
  db.tables.ForSnapshots fun r => ∀ n, r.id = .generated n → n < db.written

/-- Where all ids were given none is yet to be made up. -/
theorem fresh_ofTables {t : Tables} (h : t.ForSnapshots fun r => ∃ text, r.id = .given text) :
    (ofTables t).Fresh := by
  intro rows hrows r hr n hid
  obtain ⟨text, hgiven⟩ := h rows hrows r hr
  rw [hgiven] at hid
  cases hid

/-- What the recording of a snapshot is answered with. -/
def recording (db : Database) : Except Error Unit :=
  if db.writing then
    match db.tables.snapshots with
    | some _ => .ok ()
    | none =>
      .error (StorageFault.engine (Tables.noSuchTable TableName.snapshots.text).toError).toError
  else .error writerStopped

/-- The rows in the table of snapshots. -/
def snapshotRows (db : Database) : List SnapshotRow := db.tables.snapshots.getD []

/-- The rows of an asset that a database has more than an earlier one, ids and times of creation
left aside. -/
def addedFor (asset : String) (db db' : Database) : List SnapshotRow :=
  ((db'.snapshotRows.drop db.snapshotRows.length).filter fun r => r.asset == asset).map
    SnapshotRow.unstamped

variable {db db' db'' : Database} {log : List Snapshot}

/-- The second database holds the snapshots of a log behind those of the first one, and its writer
runs if that of the first one does. -/
structure Recorded (log : List Snapshot) (db db' : Database) : Prop where
  rows : ∃ added : List SnapshotRow, db'.tables.snapshots = db.tables.snapshots.map (· ++ added) ∧
    added.map SnapshotRow.unstamped = log.map Snapshot.unstamped
  writing : db'.writing = db.writing
  fresh : db'.Fresh

theorem recorded_nil (h : db.Fresh) : Recorded [] db db := by
  refine ⟨⟨[], ?_, rfl⟩, rfl, h⟩
  cases hrows : db.tables.snapshots <;> simp

namespace Recorded

/-- The answer to a recording stays the same. -/
theorem recording_eq (h : Recorded log db db') : db'.recording = db.recording := by
  obtain ⟨added, hrows, -⟩ := h.rows
  unfold recording
  rw [hrows, h.writing]
  cases db.tables.snapshots <;> rfl

theorem trans {log' : List Snapshot} (h : Recorded log db db') (h' : Recorded log' db' db'') :
    Recorded (log ++ log') db db'' := by
  obtain ⟨added, hrows, hadded⟩ := h.rows
  obtain ⟨added', hrows', hadded'⟩ := h'.rows
  refine ⟨⟨added ++ added', ?_, ?_⟩, h'.writing.trans h.writing, h'.fresh⟩
  · rw [hrows', hrows]
    cases db.tables.snapshots <;> simp
  · rw [List.map_append, List.map_append, hadded, hadded']

/-- Where there is a table, the rows of an asset that have been added are those of its
snapshots in the log. -/
theorem addedFor_eq {rows : List SnapshotRow} (h : Recorded log db db')
    (htable : db.tables.snapshots = some rows) (asset : String) :
    addedFor asset db db' = (log.filter fun s => s.asset == asset).map Snapshot.unstamped := by
  obtain ⟨added, hrows, hadded⟩ := h.rows
  have hnew : db'.snapshotRows.drop db.snapshotRows.length = added := by
    unfold snapshotRows
    rw [hrows, htable]
    exact List.drop_left
  have hfilter := congrArg (List.filter fun r => r.asset == asset) hadded
  rw [List.filter_map, List.filter_map] at hfilter
  unfold addedFor
  rw [hnew]
  exact hfilter

/-- Where there is none, no rows are added. -/
theorem addedFor_eq_nil (h : Recorded log db db') (htable : db.tables.snapshots = none)
    (asset : String) : addedFor asset db db' = [] := by
  obtain ⟨added, hrows, -⟩ := h.rows
  unfold addedFor snapshotRows
  rw [hrows, htable]
  rfl

end Recorded

/-- A key that no row has lets a row be inserted. -/
theorem insertSnapshot_of_fresh {rows : List SnapshotRow} (hfresh : db.Fresh)
    (htable : db.tables.snapshots = some rows) (s : Snapshot) (created : CreationTime) :
    db.tables.insertSnapshot (.ofSnapshot (.generated db.written) s created) =
      .ok { db.tables with
        snapshots := some (rows ++ [.ofSnapshot (.generated db.written) s created]) } := by
  have hfree : (rows.any fun r => r.id == .generated db.written) = false := by
    rw [List.any_eq_false]
    intro r hr hid
    exact Nat.lt_irrefl _ (hfresh rows htable r hr _ (beq_iff_eq.mp hid))
  have hinsert : Tables.insertInto rows (.ofSnapshot (.generated db.written) s created)
      Tables.snapshotKeys = .ok (rows ++ [.ofSnapshot (.generated db.written) s created]) := by
    unfold Tables.insertInto Tables.snapshotKeys
    rw [List.find?_cons]
    simp only [SnapshotRow.ofSnapshot, hfree, List.find?_nil]
  unfold Tables.insertSnapshot
  rw [htable]
  show (Tables.insertInto rows _ _ >>= _) = _
  rw [hinsert]
  rfl

/-- A recording writes a row, and the number of rows written goes up even if that fails. -/
theorem run_appendWritten (s : Snapshot) (db : Database) :
    (appendWritten s).run db =
      (((write fun t => do
          return ((), ← t.insertSnapshot
            (.ofSnapshot (.generated db.written) s (.written db.written)))).run db).map id
        fun db => { db with written := db.written + 1 }) := rfl

/-- A recording is answered as foreseen. It adds the row of the snapshot if it is confirmed, and
else nothing. -/
theorem appendWritten_of_fresh (hfresh : db.Fresh) (s : Snapshot) :
    ∃ db', (appendWritten s).run db = (db.recording, db') ∧
      Recorded (if db.recording = .ok () then [s] else []) db db' := by
  -- ids that were in use before stay in use
  have hkept : ∀ r : SnapshotRow, (∀ n, r.id = .generated n → n < db.written) →
      ∀ n, r.id = .generated n → n < db.written + 1 :=
    fun r h n hid => Nat.lt_succ_of_lt (h n hid)
  have hsame : Recorded [] db { db with written := db.written + 1 } :=
    ⟨(recorded_nil hfresh).rows, rfl, fun rows hrows r hr => hkept r (hfresh rows hrows r hr)⟩
  rw [run_appendWritten]
  unfold recording
  by_cases hwriting : db.writing = true
  · rw [if_pos hwriting]
    rcases htable : db.tables.snapshots with _ | rows
    · have hinsert : (do
          return ((), ← db.tables.insertSnapshot
            (.ofSnapshot (.generated db.written) s (.written db.written))) :
          Except Error (Unit × Tables)) =
          .error (Tables.noSuchTable TableName.snapshots.text).toError := by
        unfold Tables.insertSnapshot
        rw [htable]
        rfl
      rw [write_of_error hwriting hinsert]
      exact ⟨_, rfl, hsame⟩
    · let row : SnapshotRow := .ofSnapshot (.generated db.written) s (.written db.written)
      have hinsert : (do return ((), ← db.tables.insertSnapshot row) :
          Except Error (Unit × Tables)) =
          .ok ((), { db.tables with snapshots := some (rows ++ [row]) }) := by
        rw [insertSnapshot_of_fresh hfresh htable]
        rfl
      rw [write_of_ok hwriting hinsert]
      refine ⟨_, rfl, ⟨[row], ?_, rfl⟩, rfl, ?_⟩
      · rw [htable]
        rfl
      · refine Tables.ForSnapshots.append (fun rows' hrows' r hr => ?_) htable fun n hid => ?_
        · exact hkept r (hfresh rows' hrows' r hr)
        · cases hid
          exact Nat.lt_succ_self _
  · rw [if_neg hwriting, write_of_stopped hwriting]
    exact ⟨_, rfl, hsame⟩

end Database

/-! ## Sessions -/

namespace Session

/-- What every question is answered with as a session stands. -/
def oracle {σ : Type} (stores : Stores σ) (s : Session σ) : Oracle :=
  fun q => ((answer stores q).run s).1

/-- A report that began with one session has come to another one: look-ups still give the same,
and exactly the snapshots of a log have been recorded. -/
structure Since (start : Int64) (first : Session Database) (log : List Snapshot)
    (s : Session Database) : Prop where
  fresh : first.stores.Fresh
  reads : Reads first.stores.tables first.rate start s
  recorded : Database.Recorded log first.stores s.stores

variable (faults : SnapshotFaults) {start : Int64} {first s : Session Database}
  {log : List Snapshot}

omit faults in
theorem since_nil (hfresh : first.stores.Fresh) (start : Int64) : Since start first [] first :=
  ⟨hfresh, reads_self first.memo first.stores start, Database.recorded_nil hfresh⟩

theorem answer_append_of_fault {snapshot : Snapshot} {e : Error}
    (hfault : faults.recording snapshot.asset snapshot.control = some e) :
    (answer (Database.stores.withFaults faults) (.append snapshot)).run s = (.error e, s) := by
  show (onStores ((Database.stores.withFaults faults).append snapshot)).run s = _
  unfold Stores.withFaults
  simp only [hfault]
  rfl

/-- A recording that does not fail by itself is answered as foreseen. -/
theorem answer_append_of_fresh (hfresh : s.stores.Fresh) {snapshot : Snapshot}
    (hfault : faults.recording snapshot.asset snapshot.control = none) :
    ∃ db, (answer (Database.stores.withFaults faults) (.append snapshot)).run s =
        (s.stores.recording, ⟨s.memo, db⟩) ∧
      ((answer Database.stores (.append snapshot)).run s).2 = ⟨s.memo, db⟩ ∧
      Database.Recorded (if s.stores.recording = .ok () then [snapshot] else []) s.stores db := by
  obtain ⟨db, hrun, hrecorded⟩ := Database.appendWritten_of_fresh hfresh snapshot
  have hanswer : (onStores (Database.appendWritten snapshot)).run s =
      (s.stores.recording, ⟨s.memo, db⟩) := by
    unfold onStores
    simp only [StateT.run] at hrun ⊢
    rw [hrun]
  refine ⟨db, ?_, congrArg Prod.snd hanswer, hrecorded⟩
  show (onStores ((Database.stores.withFaults faults).append snapshot)).run s = _
  unfold Stores.withFaults
  simp only [hfault]
  exact hanswer

/-- A question is answered as it would have been at first, and recorded is what the answer
confirms. -/
theorem Since.answer (h : Since start first log s) {q : Question}
    (hasked : Lookups.Asked start q) :
    ∃ s', (answer (Database.stores.withFaults faults) q).run s =
        (first.oracle (Database.stores.withFaults faults) q, s') ∧
      Since start first
        (log ++ ((first.oracle (Database.stores.withFaults faults)).recorded? q).toList) s' := by
  obtain ⟨hfresh, hreads, hrecorded⟩ := h
  -- whatever is answered without being recorded
  have hkept : ∀ {q : Question} {s' : Session Database},
      (first.oracle (Database.stores.withFaults faults)).recorded? q = none →
      Reads first.stores.tables first.rate start s' →
      Database.Recorded log first.stores s'.stores →
      Since start first
        (log ++ ((first.oracle (Database.stores.withFaults faults)).recorded? q).toList) s' := by
    intro q s' hnone hreads' hrecorded'
    rw [hnone, Option.toList_none, List.append_nil]
    exact ⟨hfresh, hreads', hrecorded'⟩
  rcases q with ⟨account, stop, page⟩ | ⟨domain, page⟩ | ⟨scope, asset⟩ |
    ⟨account, asset, time⟩ | snapshot | _ | notice
  · have hlisting := congrFun (congrFun (congrFun hreads.tables.listTransfers account) stop) page
    exact ⟨s, Prod.ext hlisting rfl, hkept rfl hreads hrecorded⟩
  · have hlisting := congrFun (congrFun hreads.tables.listAccounts domain) page
    exact ⟨s, Prod.ext hlisting rfl, hkept rfl hreads hrecorded⟩
  · obtain ⟨m, notices, hrun, hreads'⟩ := hreads.resolve scope asset
    obtain ⟨m', notices', hrun', -⟩ := answer_rate first scope asset
    refine ⟨_, hrun.trans (Prod.ext ?_ rfl), hkept rfl hreads'
      ⟨hrecorded.rows, hrecorded.writing, hrecorded.fresh⟩⟩
    exact (congrArg Prod.fst hrun').symm
  · have htime : time = start := hasked
    subst htime
    refine ⟨s, ?_, hkept rfl hreads hrecorded⟩
    unfold oracle Session.answer Stores.withFaults
    simp only
    rcases faults.lookup asset with _ | e
    · exact Prod.ext (hreads.tables.snapshotUpTo account asset) rfl
    · rfl
  · rcases hfault : faults.recording snapshot.asset snapshot.control with _ | e
    · obtain ⟨db, hrun, hstate, hadded⟩ := answer_append_of_fresh faults hrecorded.fresh hfault
      obtain ⟨db', hrun', -⟩ := answer_append_of_fresh faults hfresh hfault
      have hanswer : first.oracle (Database.stores.withFaults faults) (.append snapshot) =
          first.stores.recording := congrArg Prod.fst hrun'
      have hbehind := hreads.append hasked
      rw [hstate] at hbehind
      rw [hrecorded.recording_eq] at hrun hadded
      refine ⟨⟨s.memo, db⟩, ?_, hfresh, hbehind, ?_⟩
      · rw [hanswer]
        exact hrun
      have hlog : ((first.oracle (Database.stores.withFaults faults)).recorded?
          (.append snapshot)).toList =
          if first.stores.recording = .ok () then [snapshot] else [] := by
        unfold Oracle.recorded?
        simp only [hanswer]
        rcases first.stores.recording with e | ⟨⟩ <;> simp
      rw [hlog]
      exact hrecorded.trans hadded
    · have hanswer : first.oracle (Database.stores.withFaults faults) (.append snapshot) =
          .error e := congrArg Prod.fst (answer_append_of_fault faults hfault)
      refine ⟨s, ?_, hkept ?_ hreads hrecorded⟩
      · rw [hanswer]
        exact answer_append_of_fault faults hfault
      · unfold Oracle.recorded?
        simp only [hanswer]
  · exact ⟨s, Prod.ext hrecorded.writing rfl, hkept rfl hreads hrecorded⟩
  · exact ⟨_, rfl, hkept rfl ⟨hreads.tables, hreads.rate⟩
      ⟨hrecorded.rows, hrecorded.writing, hrecorded.fresh⟩⟩

/-- A dialogue that keeps its recordings behind the instant of its look-ups runs as with the
oracle of its first session, and adds what it records with it. -/
theorem run_eq_oracle {α : Type} (d : Dialogue α) (h : Since start first log s)
    (hasked : ∀ q ∈ d.asked (first.oracle (Database.stores.withFaults faults)),
      Lookups.Asked start q) :
    ∃ s', (d.run (Session.answer (Database.stores.withFaults faults))).run s =
        (d.value (first.oracle (Database.stores.withFaults faults)), s') ∧
      Since start first
        (log ++ d.recorded (first.oracle (Database.stores.withFaults faults))) s' := by
  let O : Oracle := first.oracle (Database.stores.withFaults faults)
  induction d generalizing s log with
  | done value =>
    refine ⟨s, rfl, ?_⟩
    rw [Dialogue.recorded, Dialogue.asked, List.filterMap_nil, List.append_nil]
    exact h
  | ask q next ih =>
    obtain ⟨t, hanswer, ht⟩ := h.answer faults (hasked q List.mem_cons_self)
    obtain ⟨u, hrest, hu⟩ := ih (O q) ht fun q' hq' => hasked q' (List.mem_cons_of_mem _ hq')
    refine ⟨u, ?_, ?_⟩
    · rw [Dialogue.run, StateT.run_bind, hanswer]
      exact hrest
    · have hlog : log ++ (O.recorded? q).toList ++ (next (O q)).recorded O =
          log ++ (Dialogue.ask q next).recorded O := by
        rw [List.append_assoc]
        congr 1
        unfold Dialogue.recorded
        rw [Dialogue.asked, List.filterMap_cons]
        cases O.recorded? q <;> rfl
      rw [← hlog]
      exact hu

end Session

end Custodian
