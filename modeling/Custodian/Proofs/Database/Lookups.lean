import Custodian.Proofs.Database.Session
import Custodian.Proofs.Ledger.Paging
import Custodian.Proofs.Replay.Lookups

/-!
# Reports do not change what they look up

A report records snapshots only behind the start of its window, and looks snapshots up only at
that instant. So whatever is stored and whatever becomes of its recordings, every look-up gives
at any time what it would have given at first (`Session.keeps_lookups`).

Nothing is asked of the tables here: the ledger may be in any order, rows may be unreadable,
tables may be missing, and stored snapshots need not be sound.
-/

namespace Custodian

/-! ## Snapshots behind an instant -/

namespace Tables

variable {t t' t'' : Tables} {start : Int64} {rows : List SnapshotRow} {r : SnapshotRow}

/-- The second tables hold further snapshots, all from behind an instant, and are the same
otherwise. -/
def GrewBehind (start : Int64) (t t' : Tables) : Prop :=
  ∃ added : List SnapshotRow, (∀ r ∈ added, start < r.control) ∧
    t' = { t with snapshots := t.snapshots.map (· ++ added) }

theorem grewBehind_refl (start : Int64) (t : Tables) : t.GrewBehind start t := by
  refine ⟨[], by simp, ?_⟩
  cases h : t.snapshots <;> simp [← h]

namespace GrewBehind

theorem trans (h : t.GrewBehind start t') (h' : t'.GrewBehind start t'') :
    t.GrewBehind start t'' := by
  obtain ⟨added, hadded, rfl⟩ := h
  obtain ⟨added', hadded', rfl⟩ := h'
  refine ⟨added ++ added', ?_, by simp [Function.comp_def]⟩
  intro r hr
  have hmem := List.mem_append.mp hr
  exact hmem.elim (hadded r) (hadded' r)

theorem record (h : t.GrewBehind start t') (hrows : t'.snapshots = some rows)
    (hr : start < r.control) :
    t.GrewBehind start { t' with snapshots := some (rows ++ [r]) } := by
  have hnew : t'.GrewBehind start { t' with snapshots := some (rows ++ [r]) } :=
    ⟨[r], by simpa using hr, by simp [hrows]⟩
  exact h.trans hnew

/-- Rows from behind an instant are not found at it. -/
theorem recordUpTo (h : t.GrewBehind start t') (account asset : String) :
    t'.recordUpTo account asset start = t.recordUpTo account asset start := by
  obtain ⟨added, hadded, rfl⟩ := h
  have hnone : (added.filter fun r => isSnapshotOf account asset r && decide (r.control ≤ start)) =
      [] := by
    rw [List.filter_eq_nil_iff]
    intro r hr
    simp [Int64.not_le.mpr (hadded r hr)]
  have hfound : ∀ rows : List SnapshotRow,
      ((rows ++ added).filter fun r => isSnapshotOf account asset r && decide (r.control ≤ start)) =
        rows.filter fun r => isSnapshotOf account asset r && decide (r.control ≤ start) := by
    intro rows
    rw [List.filter_append, hnone, List.append_nil]
  unfold Tables.recordUpTo
  rcases t.snapshots with _ | rows
  · rfl
  · simp only [Option.map_some, Tables.rows, bind, Except.bind, hfound]

theorem snapshotUpTo (h : t.GrewBehind start t') (account asset : String) :
    t'.snapshotUpTo account asset start = t.snapshotUpTo account asset start := by
  unfold Tables.snapshotUpTo
  rw [h.recordUpTo]

theorem rate (h : t.GrewBehind start t') (m : RateMemo) : m.rate t' = m.rate t := by
  obtain ⟨added, -, rfl⟩ := h
  rfl

theorem listTransfers (h : t.GrewBehind start t') : t'.listTransfers = t.listTransfers := by
  obtain ⟨added, -, rfl⟩ := h
  rfl

theorem listAccounts (h : t.GrewBehind start t') : t'.listAccounts = t.listAccounts := by
  obtain ⟨added, -, rfl⟩ := h
  rfl

end GrewBehind

/-- What look-ups in the tables give, rates being as given. -/
def lookups (t : Tables) (rate : String → String → Except Error Decimal) : Lookups :=
  ⟨t.listTransfers, t.listAccounts, rate, t.snapshotUpTo⟩

end Tables

/-! ## The whole ledger -/

/-- Where the tables record a ledger, what is read from a page on is the stream of the account in
commit order, up to the last page that can be counted in 32 bits. -/
theorem Walk.reading_of_counted {w : Walk} {L : Lookups} {t : Tables} {ledger : Ledger}
    (hrecords : t.Records ledger) (hlookups : L.transfers = t.listTransfers)
    (hsize : 0 < w.config.transferPageSize) (n : Nat) (hn : 0 < n) :
    w.reading L n =
      (((ledger.committed.ofAccount w.account w.window.stop).take
        (w.config.transferPageSize * max n maxPage)).drop
          ((n - 1) * w.config.transferPageSize), none) := by
  let r : PageRequest := ⟨n, w.config.transferPageSize⟩
  let stream := ledger.committed.ofAccount w.account w.window.stop
  let counted := stream.take (w.config.transferPageSize * max n maxPage)
  have hlisted : L.transfers w.account w.window.stop r =
      .ok ⟨r.slice stream, stream.length⟩ := by
    rw [hlookups]
    exact Tables.listTransfers_ofRecorded hrecords
      ((PageRequest.check_eq_ok_iff r).mpr ⟨hn, hsize⟩)
  have hcounts : ((r.slice stream).filter fun t => t.countsBefore w.window.stop) =
      r.slice stream := by
    rw [List.filter_eq_self]
    intro t ht
    have hmem : t ∈ stream := List.mem_of_mem_drop (List.mem_of_mem_take ht)
    obtain ⟨-, -, hrejected, hlt⟩ := Commits.mem_ofAccount.mp hmem
    rw [Transfer.countsBefore, hrejected, decide_eq_true hlt]
    rfl
  -- the page itself can be counted
  have hslice : r.slice counted = r.slice stream := by
    have hle : r.offset + r.size ≤ w.config.transferPageSize * max n maxPage := by
      rw [r.offset_add_size hn, Nat.mul_comm]
      exact Nat.mul_le_mul_left _ (Nat.le_max_left n maxPage)
    unfold PageRequest.slice
    rw [List.drop_take, List.take_take, Nat.min_eq_left (by omega)]
  have hrest := r.slice_append_drop hn counted
  rw [hslice] at hrest
  rw [reading, hlisted]
  by_cases hnext : (Page.ofListing ⟨n, w.config.transferPageSize⟩
      (Listing.mk (r.slice stream) stream.length)).hasNext = true
  · have hmax : max (n + 1) maxPage = max n maxPage := by
      have hlt : n < maxPage := Page.number_lt_maxPage hnext
      omega
    simp only [dif_pos hnext, hcounts]
    rw [reading_of_counted hrecords hlookups hsize (n + 1) (Nat.succ_pos n), hmax,
      Nat.add_sub_cancel]
    exact Prod.ext hrest rfl
  · simp only [dif_neg hnext, hcounts]
    -- nothing that can be counted is left behind the last page
    have hall : counted.length ≤ n * w.config.transferPageSize := by
      rw [List.length_take]
      rcases Page.total_le_of_last hsize hnext with hle | hmax
      · exact Nat.le_trans (Nat.min_le_right _ _) hle
      · rw [Nat.max_eq_left hmax, Nat.mul_comm]
        exact Nat.min_le_left _ _
    rw [List.drop_of_length_le hall, List.append_nil] at hrest
    exact Prod.ext hrest rfl
  termination_by maxPage - n
  decreasing_by
    have hlt : n < maxPage := Page.number_lt_maxPage hnext
    show maxPage - (n + 1) < maxPage - n
    omega

/-- What is read is the whole stream, as long as its pages can be counted in 32 bits. -/
theorem Walk.reading_of_records {w : Walk} {L : Lookups} {t : Tables} {ledger : Ledger}
    (hrecords : t.Records ledger) (hlookups : L.transfers = t.listTransfers)
    (hsize : 0 < w.config.transferPageSize)
    (hfits : (ledger.committed.ofAccount w.account w.window.stop).length ≤
      w.config.transferPageSize * maxPage) (n : Nat) (hn : 0 < n) :
    w.reading L n =
      ((ledger.committed.ofAccount w.account w.window.stop).drop
        ((n - 1) * w.config.transferPageSize), none) := by
  have hall := Nat.le_trans hfits
    (Nat.mul_le_mul_left w.config.transferPageSize (Nat.le_max_right n maxPage))
  rw [reading_of_counted hrecords hlookups hsize n hn, List.take_of_length_le hall]

/-! ## Sessions -/

namespace Session

/-- How a session may answer if recordings of snapshots may fail at any time: without having
taken effect, or although they have. -/
inductive Unreliable {σ : Type} (stores : Stores σ) : Dialogue.Answering (Session σ)
  | answered (s : Session σ) (q : Question) :
      Unreliable stores s q ((answer stores q).run s).1 ((answer stores q).run s).2
  | recordingFailed (s : Session σ) (snapshot : Snapshot) (e : Error) :
      Unreliable stores s (.append snapshot) (.error e) s
  | recordingUnconfirmed (s : Session σ) (snapshot : Snapshot) (e : Error) :
      Unreliable stores s (.append snapshot) (.error e)
        ((answer stores (.append snapshot)).run s).2

/-- Running a dialogue without faults is one of its runs. -/
theorem runsTo_unreliable {σ α : Type} (stores : Stores σ) (d : Dialogue α) (s : Session σ) :
    d.RunsTo (Unreliable stores) s ((d.run (answer stores)).run s).1
      ((d.run (answer stores)).run s).2 := Dialogue.runsTo_run Unreliable.answered d s

/-- Faults of recordings are among all faults of the snapshot store. -/
theorem Unreliable.step {s s' : Session Database} {q : Question} {a : q.Answer}
    (h : Unreliable Database.stores s q a s') : Step s q a s' := by
  cases h with
  | answered _ _ => exact .answered s q
  | recordingFailed _ snapshot e => exact .recordingFailed s snapshot e
  | recordingUnconfirmed _ snapshot e => exact .recordingUnconfirmed s snapshot e

/-- A session looks at tables that differ from given ones only by snapshots from behind an
instant, and finds given rates. -/
structure Reads (t : Tables) (rate : String → String → Except Error Decimal) (start : Int64)
    (s : Session Database) : Prop where
  tables : t.GrewBehind start s.stores.tables
  rate : s.memo.rate t = rate

variable {t : Tables} {rate : String → String → Except Error Decimal} {start : Int64}
  {s : Session Database}

/-- At first a session looks at the tables that are there. -/
theorem reads_self (memo : RateMemo) (db : Database) (start : Int64) :
    Reads db.tables (memo.rate db.tables) start ⟨memo, db⟩ :=
  ⟨Tables.grewBehind_refl start db.tables, rfl⟩

/-- A snapshot that is recorded behind the instant shows in no look-up. -/
theorem Reads.append (h : Reads t rate start s) {snapshot : Snapshot}
    (hbehind : start < snapshot.control) :
    Reads t rate start ((answer Database.stores (.append snapshot)).run s).2 := by
  refine ⟨?_, h.rate⟩
  show t.GrewBehind start ((Database.appendWritten snapshot).run s.stores).2.tables
  rcases Database.tables_appendWritten snapshot s.stores with hsame | ⟨rows, hrows, hwritten⟩
  · rw [hsame]
    exact h.tables
  · rw [hwritten]
    exact h.tables.record hrows hbehind

/-- Rates are found as given, and at most a notice is left. -/
theorem Reads.resolve (h : Reads t rate start s) (scope asset : String) :
    ∃ (m : RateMemo) (notices : List Notice),
      (answer Database.stores (.rate scope asset)).run s =
          (rate scope asset, ⟨m, { s.stores with notices := notices }⟩) ∧
        Reads t rate start ⟨m, { s.stores with notices := notices }⟩ := by
  obtain ⟨m, notices, hrun, hrate⟩ := answer_rate s scope asset
  have hsame : s.rate = rate := (h.tables.rate s.memo).trans h.rate
  refine ⟨m, notices, by rw [hrun, hsame], h.tables, ?_⟩
  rw [← h.tables.rate]
  exact hrate.trans hsame

/-- A report is answered as the tables stood when it began. -/
theorem keeps_lookups :
    Dialogue.Keeps ((t.lookups rate).contract start) (Unreliable Database.stores)
      (Reads t rate start) := by
  intro s q a s' hs hasked hstep
  cases hstep with
  | answered _ _ =>
    rcases q with ⟨account, stop, page⟩ | ⟨domain, page⟩ | ⟨scope, asset⟩ |
      ⟨account, asset, time⟩ | snapshot | _ | notice
    · have hlisting := hs.tables.listTransfers
      exact ⟨congrFun (congrFun (congrFun hlisting account) stop) page, hs⟩
    · have hlisting := hs.tables.listAccounts
      exact ⟨congrFun (congrFun hlisting domain) page, hs⟩
    · obtain ⟨m, notices, hrun, hreads⟩ := hs.resolve scope asset
      rw [hrun]
      exact ⟨rfl, hreads⟩
    · have htime : time = start := hasked
      rw [htime]
      exact ⟨hs.tables.snapshotUpTo account asset, hs⟩
    · exact ⟨trivial, hs.append hasked⟩
    · exact ⟨trivial, hs⟩
    · exact ⟨trivial, hs.tables, hs.rate⟩
  | recordingFailed _ snapshot e => exact ⟨trivial, hs⟩
  | recordingUnconfirmed _ snapshot e => exact ⟨trivial, hs.append hasked⟩

/-- Whatever a dialogue ensures as look-ups stand when it begins holds at the end of each of its
runs, and then look-ups still stand so. -/
theorem of_unreliable {α : Type} {d : Dialogue α} {post : α → Prop} {value : α}
    {s' : Session Database} (hs : Reads t rate start s)
    (hd : d.Ensures ((t.lookups rate).contract start) post)
    (hrun : d.RunsTo (Unreliable Database.stores) s value s') :
    post value ∧ Reads t rate start s' := hd.of_runsTo keeps_lookups hrun hs

end Session

end Custodian
