import Custodian.Proofs.Database.Session
import Custodian.Proofs.Replay.Walk

/-!
# Snapshots do not show in a result

Whatever sound snapshots are stored, and whichever look-ups and recordings of snapshots fail,
the walk over an account ends as it would without snapshots (`Walk.run_eq_without_snapshots`).
Both walks come to the outcome of the world that the session looks at, in which snapshots do
not occur.
-/

namespace Custodian

/-- The settings with snapshots switched on or off. -/
def Config.withSnapshots (c : Config) (enabled : Bool) : Config :=
  { c with snapshotsEnabled := enabled }

/-! ## A ledger of two transfers -/

namespace Sample

/-- Alice receives fifty units at 10 and seven more at 60. -/
def ledger : Ledger :=
  let transfer (amount : Decimal) (occurredAt : Int64) : Transfer :=
    ⟨"treasury@bank", "alice@bank", "usd#bank", amount, occurredAt, false⟩
  [⟨⟨1, 0, 0⟩, transfer ⟨false, 50, 0, by decide, Decimal.zero.scale_le⟩ 10⟩,
    ⟨⟨2, 0, 0⟩, transfer ⟨false, 7, 0, by decide, Decimal.zero.scale_le⟩ 60⟩]

/-- Some whole units of an asset. -/
def units (n : UInt8) : Decimal :=
  ⟨false, n.toNat, 0, Nat.lt_trans n.toNat_lt (by decide), Decimal.zero.scale_le⟩

/-- Alice. -/
def account : Account := ⟨"alice", "bank"⟩

/-- What Alice holds just before 20. -/
def snapshot : Snapshot :=
  ⟨"alice@bank", "usd#bank", .zero, 20, ⟨false, 50, 0, by decide, Decimal.zero.scale_le⟩⟩

/-- The ledger, a rate for its asset, and given snapshots. -/
def tables (snapshots : List SnapshotRow) : Tables where
  accounts := some [.ofAccount account]
  transfers := some (ledger.map .ofRecorded)
  rates := some [⟨"custody_billing@bank", "usd#bank", "CUSTODY", "0.1", 0, 0⟩]
  snapshots := some snapshots
  migrated := true

/-- The snapshot as it is stored. -/
def row : SnapshotRow := .ofSnapshot (.given "s1") snapshot (.given "2024-01-01 00:00:00")

theorem records (snapshots : List SnapshotRow) : (tables snapshots).Records ledger := rfl

theorem committed_ledger : ledger.committed = ledger.map fun r => r.transfer.stored :=
  Ledger.committed_of_pairwise (by decide)

theorem timeOrdered : ledger.committed.TimeOrdered := by
  rw [committed_ledger]
  decide

theorem fits (id : String) (stop : Int64) :
    (ledger.committed.ofAccount id stop).length ≤ 2 := by
  refine Nat.le_trans (List.length_filter_le _ _) ?_
  rw [committed_ledger]
  decide

theorem sound_row : row.Sound ledger.committed := by
  refine SnapshotRow.sound_ofSnapshot _ _ ?_
  unfold Snapshot.Sound
  rw [committed_ledger]
  decide

/-- Alice's transfers on one page. -/
def page : Listing Transfer := ⟨ledger.map fun r => r.transfer.stored, 2⟩

theorem listTransfers {t : Tables} (h : t.Records ledger) :
    t.listTransfers account.id 100 ⟨1, Config.default.transferPageSize⟩ = .ok page := by
  rw [Tables.listTransfers_ofRecorded h rfl, committed_ledger]
  decide

end Sample

/-! ## The first page -/

/-- A question that is asked first is answered first. -/
theorem Dialogue.run_ask {σ α : Type} {answer : (q : Question) → StateM σ q.Answer} {q : Question}
    {next : q.Answer → Dialogue α} {s s' : σ} {a : q.Answer} (h : (answer q).run s = (a, s')) :
    ((ask q next).run answer).run s = ((next a).run answer).run s' := by
  rw [Dialogue.run, StateT.run_bind, h]
  rfl

namespace Walk

/-- What is left of a walk when its first page is answered. -/
def afterPage (w : Walk) (answer : Except Error (Listing Transfer)) : Attempt AccountCustody := do
  let book ←
    match answer with
    | .error e => throw (ledgerError e)
    | .ok listing => (do
      let book ← w.replayAll (.empty w.account) listing.items
      if _ : (Page.ofListing ⟨1, w.config.transferPageSize⟩ listing).hasNext = true then
        w.replayPages 2 book
      else return book : Attempt AccountBook)
  let assets ← w.finish book.assets
  return ⟨w.account, assets⟩

/-- A walk asks for its first page, and goes on from there. -/
theorem run_eq_ask (w : Walk) :
    w.run.run =
      .ask (.transfers w.account w.window.stop ⟨1, w.config.transferPageSize⟩) fun answer =>
        (w.afterPage answer).run := by
  unfold run
  rw [replayPages]
  refine congrArg (Dialogue.ask _) (funext fun answer => ?_)
  rcases answer with e | listing
  · rfl
  · rfl

end Walk

/-- A report on an account asks for the first page of its walk, and goes on from there. -/
theorem Report.account_eq_ask {config : Config} {window : Window} {account : Account}
    {id : String} {start stop : Int64}
    (hwindow : Window.make start stop = .ok window) (haccount : Account.ofId id = .ok account) :
    (Report.account config id start stop).run =
      .ask (.transfers account.id window.stop ⟨1, config.transferPageSize⟩) fun answer =>
        ((Walk.make config window account).afterPage answer >>= fun custody =>
          return custody.assets).run := by
  unfold Report.account
  rw [hwindow, haccount]
  show ((Walk.make config window account).run >>= fun custody => return custody.assets).run = _
  rw [ExceptT.run_bind, Walk.run_eq_ask]
  rfl

namespace Sample

variable {s : Session Database}

/-- The first question of a walk over Alice is answered with both transfers. -/
theorem answer_transfers (h : s.stores.tables.Records ledger) :
    (Session.answer Database.stores
        (.transfers account.id 100 ⟨1, Config.default.transferPageSize⟩)).run s = (.ok page, s) :=
  Prod.ext (listTransfers h) rfl

/-- A report on Alice runs on from the page of both transfers. -/
theorem run_report (h : s.stores.tables.Records ledger) :
    ((Report.account .default "alice@bank" 20 100).run.run (Session.answer Database.stores)).run s =
      (((Walk.make .default ⟨20, 100⟩ account).afterPage (.ok page) >>= fun custody =>
        return custody.assets).run.run (Session.answer Database.stores)).run s := by
  have hwindow : Window.make 20 100 = .ok ⟨20, 100⟩ := by decide
  have haccount : Account.ofId "alice@bank" = .ok account := by decide +kernel
  rw [Report.account_eq_ask hwindow haccount]
  exact Dialogue.run_ask (answer_transfers h)

end Sample

/-! ## Walks with and without snapshots -/

namespace Walk

variable {ledger : Ledger} {config : Config} {window : Window} {account : Account}
  {s t : Session Database} {result : Except Error AccountCustody}

/-- The outcome does not depend on whether snapshots are used, nor on whether there are any. -/
theorem outcome_withSnapshots (enabled : Bool) (horizon : Option Int64) :
    (make (config.withSnapshots enabled) window account).outcome (s.world ledger horizon) =
      (make config window account).outcome (s.world ledger none) := rfl

/-- A walk without snapshots comes to its outcome, whatever is stored as snapshots. -/
theorem run_eq_outcome (s : Session Database) (hrecords : s.stores.tables.Records ledger)
    (hordered : ledger.committed.TimeOrdered) (hconfig : config.check = .ok ())
    (hwindow : window.Valid)
    (hfits : (ledger.committed.ofAccount account.id window.stop).length ≤
      config.transferPageSize * maxPage) :
    (((make (config.withSnapshots false) window account).run.run.run
        (Session.answer Database.stores)).run s).1 =
      (make config window account).outcome (s.world ledger none) := by
  have hregular :
      (make (config.withSnapshots false) window account).Regular (s.world ledger none) :=
    ⟨hwindow, hconfig, fun h => absurd h Bool.false_ne_true, hordered, hfits⟩
  rw [← outcome_withSnapshots false none]
  refine (Session.of_runsTo hrecords ?_ (ensures_run hregular) (Session.runsTo_answer _ s)).1
  rintro _ ⟨⟩

/-- With any sound snapshots in store and under any faults of the snapshot store, a walk with
snapshots ends exactly as the walk without them does. Pages are counted in 32 bits, so no walk
gets to the end of a stream with more of them. -/
theorem run_eq_without_snapshots (hrecords : s.stores.tables.Records ledger)
    (hsound : s.stores.tables.Sound ledger.committed)
    (hordered : ledger.committed.TimeOrdered) (hconfig : config.check = .ok ())
    (hwindow : window.Valid)
    (hfits : (ledger.committed.ofAccount account.id window.stop).length ≤
      config.transferPageSize * maxPage)
    (hrun : Dialogue.RunsTo Session.Step
      (make (config.withSnapshots true) window account).run.run s result t) :
    result =
      (((make (config.withSnapshots false) window account).run.run.run
        (Session.answer Database.stores)).run s).1 := by
  -- the horizon is the last instant there is, so it is no restriction
  have hregular : (make (config.withSnapshots true) window account).Regular
      (s.world ledger (some Int64.maxValue)) :=
    ⟨hwindow, hconfig, fun _ => ⟨_, rfl, Int64.le_maxValue _⟩, hordered, hfits⟩
  have hstored : ∀ time ∈ some Int64.maxValue,
      s.stores.tables.SoundUpTo ledger.committed time := by
    rintro _ ⟨⟩
    exact hsound.upTo_maxValue
  have hresult := (Session.of_runsTo hrecords hstored (ensures_run hregular) hrun).1
  rw [hresult, run_eq_outcome s hrecords hordered hconfig hwindow hfits, outcome_withSnapshots]

/-- A walk that starts from the stored fifty units ends as the walk over both transfers. -/
theorem run_sample_eq_without_snapshots :
    let db : Database := .ofTables (Sample.tables [Sample.row])
    Sample.row.Sound Sample.ledger.committed ∧
      (((make (Config.default.withSnapshots true) ⟨50, 100⟩ Sample.account).run.run.run
        (Session.answer Database.stores)).run ⟨.empty, db⟩).1 =
      (((make (Config.default.withSnapshots false) ⟨50, 100⟩ Sample.account).run.run.run
        (Session.answer Database.stores)).run ⟨.empty, db⟩).1 := by
  intro db
  refine ⟨Sample.sound_row, run_eq_without_snapshots (Sample.records _) ?_ Sample.timeOrdered ?_ ?_
    (Nat.le_trans (Sample.fits _ _) ?_) (Session.runsTo_answer _ _)⟩
  · intro rows hrows r hr
    cases hrows
    rw [List.mem_singleton.mp hr]
    exact Sample.sound_row
  · decide
  · decide
  · decide

end Walk

end Custodian
