import Custodian.Proofs.Database.Faults
import Custodian.Proofs.Replay.Reference
import Custodian.Proofs.Replay.Result

/-!
# One asset does not show in another

The replay of a transfer looks at the book only where its asset stands. So from two books that
say the same of the asset it asks the same questions, whatever it is answered, and leaves two
books that say the same (`Walk.alike_replay`). Replays of other assets neither record snapshots of
the asset nor change what the book says of it. Together: a walk records of an asset what it
records of it where all other assets are missing from the ledger (`Walk.recorded_ofAsset`), even
though its pages are cut differently there.

Over a database whose snapshot store fails in a fixed way this gives `Walk.run_ofAsset`: totals
and recorded snapshots of an asset are those of the walk over the ledger without other assets.
-/

namespace Custodian

namespace AccountBook.AgreeOn

variable {asset : String} {b b' : AccountBook}

theorem insert (h : AgreeOn asset b b') (st : AssetState) :
    AgreeOn asset (b.insert asset st) (b'.insert asset st) := by
  refine ⟨?_, ?_⟩
  · simp
  · simpa using h.skipped

theorem modify (h : AgreeOn asset b b') (f : AssetState → AssetState) :
    AgreeOn asset (b.modify asset f) (b'.modify asset f) := by
  refine ⟨?_, ?_⟩
  · simp [h.state]
  · simpa using h.skipped

theorem skip (asset : String) (b b' : AccountBook) :
    AgreeOn asset (b.skip asset) (b'.skip asset) := by
  refine ⟨?_, ?_⟩
  · simp
  · simp

theorem trans {b'' : AccountBook} (h : AgreeOn asset b b') (h' : AgreeOn asset b' b'') :
    AgreeOn asset b b'' := ⟨h.state.trans h'.state, h.skipped.trans h'.skipped⟩

theorem symm (h : AgreeOn asset b b') : AgreeOn asset b' b := ⟨h.state.symm, h.skipped.symm⟩

end AccountBook.AgreeOn

/-- The look-ups that an oracle answers. -/
def Lookups.ofOracle (O : Oracle) : Lookups where
  transfers account stop page := O (.transfers account stop page)
  accounts domain page := O (.accounts domain page)
  rate scope asset := O (.rate scope asset)
  snapshot account asset time := O (.snapshot account asset time)

namespace Walk

variable {w : Walk} {book book' : AccountBook} {asset : String} {t : Transfer}

/-! ## From books that say the same -/

theorem alike_omitOrFail (book book' : AccountBook) (e : Error) :
    Attempt.Alike (AccountBook.AgreeOn asset) (w.omitOrFail book asset e)
      (w.omitOrFail book' asset e) := by
  unfold omitOrFail
  split
  · refine .lift ?_
    exact (Dialogue.Alike.refl _).bind fun _ _ _ => .done (.skip asset book book')
  · exact .throw e

theorem alike_openAsset (h : AccountBook.AgreeOn asset book book') :
    Attempt.Alike (AccountBook.AgreeOn asset) (w.openAsset book asset)
      (w.openAsset book' asset) := by
  unfold openAsset
  refine (Attempt.Alike.refl _).bind fun answer answer' hanswer => ?_
  subst hanswer
  rcases answer with e | fraction
  · exact alike_omitOrFail book book' e
  · refine (Attempt.Alike.refl _).bind fun st st' hst => ?_
    subst hst
    exact .pure (h.insert st)

theorem alike_replayOpen (h : AccountBook.AgreeOn t.asset book book') (st : AssetState) :
    Attempt.Alike (AccountBook.AgreeOn t.asset) (w.replayOpen book st t)
      (w.replayOpen book' st t) := by
  unfold replayOpen
  split
  · exact .pure h
  rcases w.settleAndApply st t.occurredAt (t.deltaFor w.account) with e | ⟨settled, applied⟩
  · exact alike_omitOrFail book book' e
  · have hmoved := h.modify fun s => { s with context := applied }
    show Attempt.Alike _ (ite _ _ _) (ite _ _ _)
    split
    · refine (Attempt.Alike.refl _).bind fun written written' hwritten => ?_
      subst hwritten
      rcases written with _ | control
      · exact .pure hmoved
      · exact .pure (hmoved.modify _)
    · exact .pure hmoved

theorem alike_resume (h : AccountBook.AgreeOn t.asset book book') :
    Attempt.Alike (AccountBook.AgreeOn t.asset) (w.resume t book) (w.resume t book') := by
  unfold resume
  rw [← h.state]
  rcases book.find? t.asset with _ | st
  · exact .pure h
  · exact alike_replayOpen h st

/-- From books that say the same of the asset of a transfer its replay asks the same, and leaves
books that say the same. -/
theorem alike_replay (h : AccountBook.AgreeOn t.asset book book') :
    Attempt.Alike (AccountBook.AgreeOn t.asset) (w.replay book t) (w.replay book' t) := by
  rcases hskipped : book.isSkipped t.asset with _ | _
  · have hskipped' := h.skipped.symm.trans hskipped
    rcases hfind : book.find? t.asset with _ | st
    · rw [replay_of_new hskipped hfind, replay_of_new hskipped' (h.state.symm.trans hfind)]
      exact (alike_openAsset h).bind fun _ _ => alike_resume
    · rw [replay_of_open hskipped hfind, replay_of_open hskipped' (h.state.symm.trans hfind)]
      exact alike_replayOpen h st
  · rw [replay_of_skipped hskipped, replay_of_skipped (h.skipped.symm.trans hskipped)]
    exact .pure h

/-! ## What is recorded of an asset -/

variable {O O' : Oracle}

/-- Two oracles agree on everything about any one asset. -/
def AgreeAbout (w : Walk) (O O' : Oracle) : Prop := ∀ asset q, w.Concerns asset q → O q = O' q

/-- A part of the walk that asks about one asset records snapshots of that asset only. -/
theorem asset_of_recorded {α : Type} {post : α → Prop} {fail : Error → Prop} {x : Attempt α}
    (h : x.Ensures (w.about asset) post fail) (O : Oracle) :
    ∀ s ∈ (x.effect O).2, s.asset = asset := by
  intro s hs
  obtain ⟨q, hq, hsome⟩ := List.mem_filterMap.mp hs
  have hconcerns : w.Concerns asset q := Dialogue.Ensures.asked h (fun _ _ => trivial) q hq
  unfold Oracle.recorded? at hsome
  cases q with
  | append snapshot =>
    simp only at hsome
    split at hsome
    · cases hsome
      exact hconcerns.2.1
    · cases hsome
  | _ => cases hsome

/-- Of snapshots that are all of one asset none is of another one. -/
theorem filter_eq_nil_of_ne {other : String} {recorded : List Snapshot}
    (h : ∀ s ∈ recorded, s.asset = other) (hne : other ≠ asset) :
    (recorded.filter fun s => s.asset == asset) = [] := by
  rw [List.filter_eq_nil_iff]
  intro s hs
  rw [h s hs, beq_iff_eq]
  exact hne

theorem filter_eq_self_of_eq {recorded : List Snapshot} (h : ∀ s ∈ recorded, s.asset = asset) :
    (recorded.filter fun s => s.asset == asset) = recorded := by
  rw [List.filter_eq_self]
  intro s hs
  exact beq_iff_eq.mpr (h s hs)

/-- Replaying transfers records of an asset what replaying the transfers of the asset alone does,
and leaves books that say the same of it. -/
theorem effect_ofAsset (hagree : w.AgreeAbout O O') (asset : String) (ts : Commits)
    {book book' b : AccountBook}
    {recorded : List Snapshot} (h : w.InOrder book) (h' : w.InOrder book')
    (hbook : AccountBook.AgreeOn asset book book')
    (heffect : (ts.foldlM w.replay book).effect O = (.ok b, recorded)) :
    ∃ b', ((ts.ofAsset asset).foldlM w.replay book').effect O' =
        (.ok b', recorded.filter fun s => s.asset == asset) ∧
      w.InOrder b ∧ w.InOrder b' ∧ AccountBook.AgreeOn asset b b' := by
  induction ts generalizing book book' recorded with
  | nil =>
    cases heffect
    exact ⟨book', rfl, h, h', hbook⟩
  | cons t ts ih =>
    rw [List.foldlM_cons] at heffect
    obtain ⟨next, before, after, hfirst, hrest, rfl⟩ := Attempt.of_effect_bind heffect
    have htouched := (touches_replay h).of_effect (fun _ _ => trivial) hfirst
    have hasset := asset_of_recorded (touches_replay (t := t) h) O
    rw [hfirst] at hasset
    rw [Commits.ofAsset_cons, List.filter_append]
    by_cases ht : t.asset = asset
    · -- the same questions from both books
      rw [if_pos ht, List.foldlM_cons]
      rw [← ht] at hbook
      obtain ⟨next', hfirst', hnext⟩ := (alike_replay hbook).effect hfirst
      have htouched' := (touches_replay h').of_effect (fun _ _ => trivial) hfirst'
      rw [← (touches_replay h').effect_eq (fun _ _ => trivial) (hagree t.asset)] at hfirst'
      rw [ht] at hnext
      obtain ⟨b', hrest', hb, hb', hagrees⟩ := ih htouched.1 htouched'.1 hnext hrest
      refine ⟨b', ?_, hb, hb', hagrees⟩
      rw [Attempt.effect_bind_of_ok hfirst', hrest',
        filter_eq_self_of_eq fun s hs => (hasset s hs).trans ht]
    · -- nothing about the asset
      rw [if_neg ht, filter_eq_nil_of_ne hasset ht, List.nil_append]
      have hsame := htouched.2 asset (Ne.symm ht)
      exact ih htouched.1 h' (hsame.symm.trans hbook) hrest

/-! ## Pages and the end of the window -/

/-- How the transfers are cut into pages does not show. -/
theorem effect_replayPages (n : Nat) {ts : Commits} (book : AccountBook)
    (hreading : w.reading (.ofOracle O) n = (ts, none)) :
    (w.replayPages n book).effect O = (ts.foldlM w.replay book).effect O := by
  let q : Question := .transfers w.account w.window.stop ⟨n, w.config.transferPageSize⟩
  rw [reading] at hreading
  rw [replayPages]
  rw [Attempt.effect_bind_of_ok (Attempt.effect_question q)]
  show Prod.mk _ ([] ++ _) = _
  rw [List.nil_append]
  have hlookup : (Lookups.ofOracle O).transfers w.account w.window.stop
      ⟨n, w.config.transferPageSize⟩ = O q := rfl
  rw [hlookup] at hreading
  rcases hanswer : O q with e | listing
  · rw [hanswer] at hreading
    cases hreading
  rw [hanswer] at hreading
  show (w.replayAll book listing.items >>= _).effect O = _
  by_cases hnext : (Page.ofListing ⟨n, w.config.transferPageSize⟩ listing).hasNext = true
  · simp only [dif_pos hnext] at hreading ⊢
    rcases hrest : w.reading (.ofOracle O) (n + 1) with ⟨rest, failure⟩
    rw [hrest] at hreading
    cases hreading
    rw [List.foldlM_append]
    exact Attempt.effect_bind_congr _ fun b => effect_replayPages (n + 1) b hrest
  · simp only [dif_neg hnext] at hreading ⊢
    cases hreading
    rw [bind_pure]
    rfl
  termination_by maxPage - n
  decreasing_by
    have hlt : n < maxPage := Page.number_lt_maxPage hnext
    show maxPage - (n + 1) < maxPage - n
    omega

/-- At the end of the window each open asset is settled and recorded for itself. -/
theorem effect_finish (asset : String) (hwindow : w.window.start < w.window.stop)
    (entries : Keyed AssetState) (hsorted : entries.Sorted) {totals : Keyed AssetCustody} {recorded : List Snapshot}
    (heffect : (w.finish entries).effect O = (.ok totals, recorded)) :
    match entries.find? asset with
    | some st => (w.finishAsset asset st).effect O =
        (.ok (totals.find? asset), recorded.filter fun s => s.asset == asset)
    | none => totals.find? asset = none ∧ (recorded.filter fun s => s.asset == asset) = [] := by
  induction entries generalizing totals recorded with
  | nil =>
    cases heffect
    exact ⟨rfl, rfl⟩
  | cons e rest ih =>
    obtain ⟨key, st⟩ := e
    rw [finish] at heffect
    obtain ⟨custody, before, later, hfirst, hlater, rfl⟩ := Attempt.of_effect_bind heffect
    obtain ⟨others, after, last, hothers, hlast, rfl⟩ := Attempt.of_effect_bind hlater
    have hrest := ih hsorted.tail hothers
    have hasset := asset_of_recorded (@touches_finishAsset w key hwindow st) O
    rw [hfirst] at hasset
    obtain ⟨hfound, rfl⟩ : totals.find? asset =
        (if asset = key then custody.or (others.find? asset) else others.find? asset) ∧
          last = [] := by
      rcases custody with _ | c
      · cases hlast
        exact ⟨(ite_self _).symm, rfl⟩
      · cases hlast
        exact ⟨Keyed.find?_cons _ _ _ _, rfl⟩
    rw [List.append_nil, List.filter_append, hfound, Keyed.find?_cons]
    by_cases hkey : asset = key
    · subst hkey
      rw [hsorted.find?_tail (le_refl asset)] at hrest
      rw [if_pos rfl, if_pos rfl, filter_eq_self_of_eq hasset, hrest.2, List.append_nil, hrest.1,
        Option.or_none]
      exact hfirst
    · rw [if_neg hkey, if_neg hkey, filter_eq_nil_of_ne hasset (Ne.symm hkey), List.nil_append]
      exact hrest

/-! ## The whole walk -/

/-- A walk that succeeds has replayed the transfers that it reads, and then settled what was open
at the end of the window. -/
theorem of_effect_run {ts : Commits} (hreading : w.reading (.ofOracle O) 1 = (ts, none))
    {custody : AccountCustody} {recorded : List Snapshot}
    (heffect : w.run.effect O = (.ok custody, recorded)) :
    ∃ book before after, (ts.foldlM w.replay (.empty w.account)).effect O = (.ok book, before) ∧
      (w.finish book.assets).effect O = (.ok custody.assets, after) ∧
      recorded = before ++ after := by
  rw [run] at heffect
  obtain ⟨book, before, later, hpages, hlater, rfl⟩ := Attempt.of_effect_bind heffect
  obtain ⟨totals, after, last, hfinish, hlast, rfl⟩ := Attempt.of_effect_bind hlater
  rw [effect_replayPages 1 _ hreading] at hpages
  cases hlast
  exact ⟨book, before, after, hpages, hfinish, congrArg _ (List.append_nil after)⟩

/-- A walk records of an asset what it records of it where the ledger has no other assets. -/
theorem recorded_ofAsset (hwindow : w.window.start < w.window.stop) (hagree : w.AgreeAbout O O')
    {ts : Commits} (hreading : w.reading (.ofOracle O) 1 = (ts, none))
    (hreading' : w.reading (.ofOracle O') 1 = (ts.ofAsset asset, none))
    {custody custody' : AccountCustody} {recorded recorded' : List Snapshot}
    (heffect : w.run.effect O = (.ok custody, recorded))
    (heffect' : w.run.effect O' = (.ok custody', recorded')) :
    (recorded'.filter fun s => s.asset == asset) = recorded.filter fun s => s.asset == asset := by
  obtain ⟨book, before, after, hfold, hfinish, rfl⟩ := of_effect_run hreading heffect
  obtain ⟨book', before', after', hfold', hfinish', rfl⟩ := of_effect_run hreading' heffect'
  obtain ⟨b', halone, hbook, hb', hsame⟩ := effect_ofAsset hagree asset ts inOrder_empty
    inOrder_empty ⟨rfl, rfl⟩ hfold
  rw [hfold'] at halone
  cases halone
  have hstate : book'.assets.find? asset = book.assets.find? asset := hsame.state.symm
  have hlast := effect_finish asset hwindow _ hbook.sorted hfinish
  have hlast' := effect_finish asset hwindow _ hb'.sorted hfinish'
  rw [hstate] at hlast'
  rw [List.filter_append, List.filter_append, List.filter_filter]
  simp only [Bool.and_self]
  rcases hopen : book.assets.find? asset with _ | st
  · rw [hopen] at hlast hlast'
    rw [hlast.2, hlast'.2]
  · rw [hopen] at hlast hlast'
    have hown := (touches_finishAsset hwindow st).effect_eq (fun _ _ => trivial) (hagree asset)
    rw [hlast, hlast'] at hown
    rw [(Prod.mk.inj hown).2]

end Walk

/-! ## A ledger without other assets -/

namespace Commits

variable {ts : Commits} {asset : String}

theorem ofAsset_ofAsset (ts : Commits) (asset : String) :
    (ts.ofAsset asset).ofAsset asset = ts.ofAsset asset := by
  unfold ofAsset
  rw [List.filter_filter]
  simp only [Bool.and_self]

theorem ofAccount_ofAsset (ts : Commits) (account asset : String) (stop : Int64) :
    (ts.ofAsset asset).ofAccount account stop = (ts.ofAccount account stop).ofAsset asset :=
  List.filter_comm _ _ ts

theorem mem_map_asset_ofAsset :
    asset ∈ (ts.ofAsset asset).map Transfer.asset ↔ asset ∈ ts.map Transfer.asset := by
  rw [← not_iff_not, ← ofAsset_eq_nil_iff, ← ofAsset_eq_nil_iff, ofAsset_ofAsset]

end Commits

namespace Ledger

/-- The ledger without the transfers of other assets. -/
def ofAsset (ledger : Ledger) (asset : String) : Ledger :=
  ledger.filter fun r => r.transfer.asset == asset

theorem committed_ofAsset (ledger : Ledger) (asset : String) :
    (ledger.ofAsset asset).committed = ledger.committed.ofAsset asset := by
  unfold committed ofAsset Commits.ofAsset
  rw [← filter_byPlace, List.filter_map]
  rfl

end Ledger

/-- The database with another table of transfers. -/
def Database.withTransfers (db : Database) (transfers : Option (List TransferRow)) : Database :=
  { db with tables := { db.tables with transfers := transfers } }

/-- The database without the transfers of other assets. -/
def Database.ofAsset (db : Database) (asset : String) : Database :=
  { db with tables := { db.tables with
      transfers := db.tables.transfers.map (List.filter fun r => r.asset == asset) } }

theorem Tables.Records.ofAsset {db : Database} {ledger : Ledger} (h : db.tables.Records ledger)
    (asset : String) : (db.ofAsset asset).tables.Records (ledger.ofAsset asset) := by
  show db.tables.transfers.map _ = some ((ledger.ofAsset asset).map TransferRow.ofRecorded)
  rw [h, Option.map_some, List.filter_map]
  rfl

namespace Walk

variable {w : Walk} {asset : String} {memo : RateMemo} {db : Database} {faults : SnapshotFaults}

/-- What the questions of a walk are answered with over a database whose snapshot store has
faults. -/
def answers (faults : SnapshotFaults) (memo : RateMemo) (db : Database) : Oracle :=
  Session.oracle (Database.stores.withFaults faults) ⟨memo, db⟩

/-- Over such a database a walk ends in its result, and has added what it records with these
answers. -/
theorem run_with_faults (faults : SnapshotFaults) (memo : RateMemo) (hwindow : w.window.Valid)
    (hconfig : w.config.check = .ok ()) (hfresh : db.Fresh) :
    ∃ s recorded, (w.run.run.run (Session.answer (Database.stores.withFaults faults))).run
        ⟨memo, db⟩ = (w.result (.ofOracle (answers faults memo db)), s) ∧
      w.run.effect (answers faults memo db) =
        (w.result (.ofOracle (answers faults memo db)), recorded) ∧
      Database.Recorded recorded db s.stores := by
  let O : Oracle := answers faults memo db
  have hens := ensures_result (.ofOracle O) hwindow hconfig
  have hO : ∀ q, ((Lookups.ofOracle O).contract w.window.start).asked q →
      ((Lookups.ofOracle O).contract w.window.start).allowed q (O q) := by
    intro q _
    cases q <;> trivial
  have hvalue : w.run.run.value O = w.result (.ofOracle O) := hens.value hO
  have hstart : Session.Since w.window.start ⟨memo, db⟩ [] ⟨memo, db⟩ :=
    Session.since_nil hfresh w.window.start
  obtain ⟨s, hrun, hs⟩ := Session.run_eq_oracle faults w.run.run hstart (hens.asked hO)
  refine ⟨s, w.run.run.recorded O, ?_, Prod.ext hvalue rfl, hs.recorded⟩
  rw [hrun]
  exact Prod.ext hvalue rfl

/-- Questions about any one asset are answered the same whatever transfers there are. -/
theorem agreeAbout_withTransfers (w : Walk) (faults : SnapshotFaults) (memo : RateMemo)
    (hfresh : db.Fresh) (transfers : Option (List TransferRow)) :
    w.AgreeAbout (answers faults memo db) (answers faults memo (db.withTransfers transfers)) := by
  intro other q hconcerns
  rcases q with _ | _ | ⟨scope, other⟩ | ⟨account, other, time⟩ | snapshot | _ | notice
  · exact hconcerns.elim
  · exact hconcerns.elim
  · obtain ⟨_, _, hrun, -⟩ := Session.answer_rate ⟨memo, db⟩ scope other
    obtain ⟨_, _, hrun', -⟩ := Session.answer_rate ⟨memo, db.withTransfers transfers⟩ scope other
    exact (congrArg Prod.fst hrun).trans (congrArg Prod.fst hrun').symm
  · unfold answers Session.oracle Session.answer Stores.withFaults
    simp only
    rcases faults.lookup other with _ | e
    · rfl
    · rfl
  · rcases hfault : faults.recording snapshot.asset snapshot.control with _ | e
    · obtain ⟨_, hrun, -⟩ :=
        Session.answer_append_of_fresh (s := ⟨memo, db⟩) faults hfresh hfault
      obtain ⟨_, hrun', -⟩ :=
        Session.answer_append_of_fresh (s := ⟨memo, db.withTransfers transfers⟩) faults hfresh hfault
      exact (congrArg Prod.fst hrun).trans (congrArg Prod.fst hrun').symm
    · have hrun := Session.answer_append_of_fault (s := ⟨memo, db⟩) faults hfault
      have hrun' := Session.answer_append_of_fault (s := ⟨memo, db.withTransfers transfers⟩) faults hfault
      exact (congrArg Prod.fst hrun).trans (congrArg Prod.fst hrun').symm
  · exact hconcerns.elim
  · rfl

/-- The totals of an asset depend only on the answers about it. -/
theorem totals_congr (hagree : w.AgreeAbout O O') (asset : String) (ts : Commits) :
    w.totals (.ofOracle O) asset ts = w.totals (.ofOracle O') asset ts := by
  have hrate : (Lookups.ofOracle O).rate w.scope asset =
      (Lookups.ofOracle O').rate w.scope asset := hagree asset (.rate w.scope asset) ⟨rfl, rfl⟩
  have hsnapshot : (Lookups.ofOracle O).snapshot w.account asset w.window.start =
      (Lookups.ofOracle O').snapshot w.account asset w.window.start :=
    hagree asset (.snapshot w.account asset w.window.start) ⟨rfl, rfl, rfl⟩
  unfold totals progress opening
  rw [hrate, hsnapshot]

/-- A rate that ends the reading ends it with both oracles. -/
theorem blocked?_congr (hagree : w.AgreeAbout O O') (asset : String) :
    w.blocked? (.ofOracle O) asset = w.blocked? (.ofOracle O') asset := by
  have hrate : (Lookups.ofOracle O).rate w.scope asset =
      (Lookups.ofOracle O').rate w.scope asset := hagree asset (.rate w.scope asset) ⟨rfl, rfl⟩
  unfold blocked?
  rw [hrate]

/-- Where a walk succeeds it succeeds without the transfers of other assets, with the same totals
of the asset: those of all its transfers, or none. -/
theorem result_ofAsset (hagree : w.AgreeAbout O O') {ts : Commits}
    (hreading : w.reading (.ofOracle O) 1 = (ts, none))
    (hreading' : w.reading (.ofOracle O') 1 = (ts.ofAsset asset, none)) {custody : AccountCustody}
    (hresult : w.result (.ofOracle O) = .ok custody) :
    (custody.assets.find? asset =
      if asset ∈ ts.map Transfer.asset then w.totals (.ofOracle O) asset (ts.ofAsset asset)
      else none) ∧
    ∃ custody', w.result (.ofOracle O') = .ok custody' ∧
      custody'.assets.find? asset = custody.assets.find? asset := by
  have hrates := (exists_result_iff hreading).mp ⟨custody, hresult⟩
  have hfree := (failure?_eq_none_iff hreading).mpr hrates
  have hfree' : w.failure? (.ofOracle O') (w.reading (.ofOracle O') 1) = none := by
    refine (failure?_eq_none_iff hreading').mpr fun t ht => ?_
    rw [← blocked?_congr hagree]
    exact hrates t (Commits.mem_ofAsset.mp ht).1
  rw [result_of_reading hfree, hreading] at hresult
  cases hresult
  refine ⟨Keyed.find?_tabulate _ _ _, _, result_of_reading hfree', ?_⟩
  rw [Keyed.find?_tabulate, Keyed.find?_tabulate, hreading', totals_congr hagree]
  simp only [Commits.mem_map_asset_ofAsset, Commits.ofAsset_ofAsset]

/-- Whatever becomes of other assets shows neither in the totals of an asset nor in the snapshots
that are recorded of it: if the walk succeeds, both are those of the walk over the ledger without
other assets. And the totals are those of all transfers of the asset, or there are none. -/
theorem run_ofAsset {ledger : Ledger} {config : Config} {window : Window} {account : Account}
    {custody : AccountCustody} {s : Session Database}
    (hrecords : db.tables.Records ledger) (hfresh : db.Fresh) (hconfig : config.check = .ok ())
    (hwindow : window.Valid)
    (hfits : (ledger.committed.ofAccount account.id window.stop).length ≤
      config.transferPageSize * maxPage)
    (hrun : ((make config window account).run.run.run
      (Session.answer (Database.stores.withFaults faults))).run ⟨memo, db⟩ = (.ok custody, s))
    (asset : String) :
    (∃ custody' s', ((make config window account).run.run.run
        (Session.answer (Database.stores.withFaults faults))).run ⟨memo, db.ofAsset asset⟩ =
          (.ok custody', s') ∧
      custody'.assets.find? asset = custody.assets.find? asset ∧
      Database.addedFor asset (db.ofAsset asset) s'.stores =
        Database.addedFor asset db s.stores) ∧
    custody.assets.find? asset =
      let stream := ledger.committed.ofAccount account.id window.stop
      if asset ∈ stream.map Transfer.asset then
        (make config window account).totals (.ofOracle (answers faults memo db)) asset
          (stream.ofAsset asset)
      else none := by
  set w : Walk := make config window account
  have hvalid : w.window.Valid := hwindow
  have hsettings : w.config.check = .ok () := hconfig
  let stream : Commits := ledger.committed.ofAccount account.id window.stop
  have hstream : (ledger.ofAsset asset).committed.ofAccount account.id window.stop =
      stream.ofAsset asset := by
    rw [Ledger.committed_ofAsset, Commits.ofAccount_ofAsset]
  have hfits' : ((ledger.ofAsset asset).committed.ofAccount account.id window.stop).length ≤
      config.transferPageSize * maxPage := by
    rw [hstream]
    exact Nat.le_trans (List.length_filter_le _ _) hfits
  have hsize : 0 < w.config.transferPageSize := Config.transferPageSize_pos hconfig
  have hreading : w.reading (.ofOracle (answers faults memo db)) 1 = (stream, none) := by
    rw [reading_of_records hrecords rfl hsize hfits 1 Nat.one_pos, Nat.sub_self, Nat.zero_mul]
    rfl
  have hreading' : w.reading (.ofOracle (answers faults memo (db.ofAsset asset))) 1 =
      (stream.ofAsset asset, none) := by
    rw [reading_of_records (hrecords.ofAsset asset) rfl hsize hfits' 1 Nat.one_pos, Nat.sub_self,
      Nat.zero_mul, ← hstream]
    rfl
  have hagree : w.AgreeAbout (answers faults memo db) (answers faults memo (db.ofAsset asset)) :=
    w.agreeAbout_withTransfers faults memo hfresh _
  have hfresh' : (db.ofAsset asset).Fresh := hfresh
  obtain ⟨s₁, recorded, hrun₁, heffect, hs₁⟩ :=
    run_with_faults faults memo hvalid hsettings hfresh
  obtain ⟨s', recorded', hrun', heffect', hs'⟩ :=
    run_with_faults faults memo hvalid hsettings hfresh'
  rw [hrun₁] at hrun
  obtain ⟨hresult, rfl⟩ := Prod.mk.inj hrun
  obtain ⟨hentry, custody', hresult', hsame⟩ := result_ofAsset hagree hreading hreading' hresult
  rw [hresult] at heffect
  rw [hresult'] at heffect' hrun'
  refine ⟨⟨custody', s', hrun', hsame, ?_⟩, hentry⟩
  have hrecorded := recorded_ofAsset hvalid.1 hagree hreading hreading' heffect heffect'
  rcases htable : db.tables.snapshots with _ | rows
  · rw [hs₁.addedFor_eq_nil htable, hs'.addedFor_eq_nil htable]
  · rw [hs₁.addedFor_eq htable, hs'.addedFor_eq htable, hrecorded]

end Walk

namespace Sample

/-- Alice's transfers, and one of an asset without a rate that comes last and is stamped first. -/
def mixedLedger : Ledger :=
  ledger ++ [⟨⟨3, 0, 0⟩,
    ⟨"treasury@bank", "alice@bank", "gold#bank", .one, 5, false⟩⟩]

/-- The database of this ledger. -/
def mixed : Database :=
  .ofTables { tables [row] with transfers := some (mixedLedger.map .ofRecorded) }

/-- No snapshot of gold can be looked up, and the last one of Alice's dollars not be recorded. -/
def faults : SnapshotFaults where
  lookup asset := if asset = "gold#bank" then some Database.writerStopped else none
  recording asset control :=
    if asset = "usd#bank" ∧ control = 100 then some Database.writerStopped else none

end Sample

namespace Walk

/-- Gold is omitted, and Alice's dollars are as if it had not been there. -/
theorem run_sample_ofAsset :
    ∃ s custody' s',
      ((make .default ⟨20, 100⟩ Sample.account).run.run.run
        (Session.answer (Database.stores.withFaults Sample.faults))).run ⟨.empty, Sample.mixed⟩ =
          (.ok Sample.custody, s) ∧
      ((make .default ⟨20, 100⟩ Sample.account).run.run.run
        (Session.answer (Database.stores.withFaults Sample.faults))).run
          ⟨.empty, Sample.mixed.ofAsset "usd#bank"⟩ = (.ok custody', s') ∧
      custody'.assets.find? "usd#bank" = Sample.custody.assets.find? "usd#bank" ∧
      Database.addedFor "usd#bank" (Sample.mixed.ofAsset "usd#bank") s'.stores =
        Database.addedFor "usd#bank" Sample.mixed s.stores := by
  have hrecords : Sample.mixed.tables.Records Sample.mixedLedger := rfl
  have hfresh : Sample.mixed.Fresh := by
    refine Database.fresh_ofTables fun rows hrows r hr => ?_
    cases hrows
    rw [List.mem_singleton.mp hr]
    exact ⟨_, rfl⟩
  have hcommitted : Sample.mixedLedger.committed =
      Sample.mixedLedger.map fun r => r.transfer.stored := Ledger.committed_of_pairwise (by decide)
  have hfits : (Sample.mixedLedger.committed.ofAccount Sample.account.id 100).length ≤
      Config.default.transferPageSize * maxPage := by
    rw [hcommitted]
    exact Nat.le_trans (List.length_filter_le _ _) (by decide)
  let w : Walk := make .default ⟨20, 100⟩ Sample.account
  have hreading := @reading_of_records w (.ofOracle (answers Sample.faults .empty Sample.mixed))
    _ _ hrecords rfl (by decide) hfits 1 Nat.one_pos
  have hresult : w.result (.ofOracle (answers Sample.faults .empty Sample.mixed)) =
      .ok Sample.custody := by
    unfold result
    rw [hreading, hcommitted]
    decide +kernel
  obtain ⟨s, recorded, hrun, -⟩ := @run_with_faults w Sample.mixed Sample.faults .empty
    (by decide) (by decide) hfresh
  rw [hresult] at hrun
  obtain ⟨⟨custody', s', hrun', hsame, hadded⟩, -⟩ := @run_ofAsset _ _ Sample.faults _ .default
    ⟨20, 100⟩ Sample.account _ _ hrecords hfresh (by decide) (by decide) hfits hrun "usd#bank"
  exact ⟨s, custody', s', hrun, hrun', hsame, hadded⟩

end Walk

end Custodian
