import Custodian.Proofs.Replay.Lookups
import Custodian.Proofs.Replay.Report

/-!
# A walk ends in its result

As long as look-ups have fixed answers, a walk ends in `Walk.result`, whatever becomes of the
snapshots it records (`Walk.ensures_result`). Two accounts of a replay are put together here.
What it does to the asset of its transfer is compared with `Walk.progress`
(`Walk.progresses_replay`), where any question may be asked; that it asks about no other asset
and leaves all others alone is known from `Walk.touches_replay`.
-/

namespace Custodian

namespace Walk

variable {w : Walk} {L : Lookups} {done : Commits} {book b : AccountBook} {asset : String}
  {t : Transfer} {st : AssetState}

/-! ## Where an asset stands -/

/-- Where the replay of an asset stands after some transfers: its state, and whether it is left
out. Only the newest snapshot it knows of is open. -/
inductive Stands (w : Walk) (L : Lookups) (asset : String) (done : Commits) :
    Option AssetState → Bool → Prop
  | unseen (h : done.ofAsset asset = []) : Stands w L asset done none false
  | omitted (e : Error) (hseen : done.ofAsset asset ≠ []) (hfree : w.blocked? L asset = none)
      (h : w.progress L asset (done.ofAsset asset) = .error e) : Stands w L asset done none true
  | running (st : AssetState) (last : Option Int64) (hseen : done.ofAsset asset ≠ [])
      (h : w.progress L asset (done.ofAsset asset) = .ok st) :
      Stands w L asset done (some { st with lastSnapshotAt := last }) false

theorem ofAsset_concat_self : (done ++ [t]).ofAsset t.asset = done.ofAsset t.asset ++ [t] := by
  rw [Commits.ofAsset_append, Commits.ofAsset_cons, if_pos rfl, Commits.ofAsset_nil]

theorem ofAsset_concat_of_ne (h : t.asset ≠ asset) :
    (done ++ [t]).ofAsset asset = done.ofAsset asset := by
  rw [Commits.ofAsset_append, Commits.ofAsset_cons, if_neg h, Commits.ofAsset_nil,
    List.append_nil]

/-- Only the transfers of the asset matter. -/
theorem Stands.congr {done' : Commits} {state : Option AssetState} {skipped : Bool}
    (h : Stands w L asset done state skipped) (heq : done'.ofAsset asset = done.ofAsset asset) :
    Stands w L asset done' state skipped := by
  rcases h with h | ⟨e, hseen, hfree, h⟩ | ⟨st, last, hseen, h⟩
  · exact .unseen (heq.trans h)
  · exact .omitted e (heq ▸ hseen) hfree (heq ▸ h)
  · exact .running st last (heq ▸ hseen) (heq ▸ h)

/-! ## What a replay does to its own asset -/

/-- Every answer to a recording leaves the state of the replay alone. -/
theorem answers_checkpoint (settled : Context) (last : Option Int64) :
    (w.checkpoint asset settled last).Ensures L.answers fun _ => True :=
  asks_checkpoint last trivial fun _ => trivial

theorem answers_seed (fraction : Decimal) :
    (w.policy.seed w.account asset w.window fraction).Ensures L.answers
      (· = w.policy.stateFrom (L.snapshot w.account asset w.window.start) w.window fraction) := by
  unfold SnapshotPolicy.seed SnapshotPolicy.stateFrom
  split
  · rw [Dialogue.ensures_bind, Dialogue.ensures_question]
    refine ⟨trivial, fun answer hallowed => ?_⟩
    have hanswer : answer = L.snapshot w.account asset w.window.start := hallowed
    rw [← hanswer]
    rcases answer with e | _ | snapshot
    · exact ⟨trivial, fun _ _ => rfl⟩
    · rfl
    · rfl
  · rfl

/-- What is known once the replay of an asset has been opened. -/
inductive Opens (w : Walk) (L : Lookups) (asset : String) (book : AccountBook) : Prop
  | running (st : AssetState) (h : w.opening L asset = .ok st)
      (hfind : book.find? asset = some st) (hkept : book.isSkipped asset = false)
  | omitted (e : Error) (h : w.opening L asset = .error e) (hfree : w.blocked? L asset = none)
      (hfind : book.find? asset = none) (hskipped : book.isSkipped asset = true)

theorem progresses_openAsset (hkept : book.isSkipped asset = false) :
    (w.openAsset book asset).Ensures L.answers (Opens w L asset)
      fun e => w.blocked? L asset = some e := by
  unfold openAsset
  rw [Attempt.ensures_bind, Attempt.ensures_question]
  refine ⟨trivial, fun answer hallowed => ?_⟩
  have hanswer : answer = L.rate w.scope asset := hallowed
  rcases answer with e | fraction
  · have hopening : w.opening L asset = .error e := by
      unfold opening
      rw [← hanswer]
      rfl
    have hblocked : w.blocked? L asset = if e.assetCause?.isSome then none else some e := by
      unfold blocked?
      rw [← hanswer]
    show Attempt.Ensures _ _ _ (w.omitOrFail book asset e)
    unfold omitOrFail
    split
    · rename_i cause hcause
      have hfree : w.blocked? L asset = none := by
        rw [hblocked, hcause]
        rfl
      rw [Attempt.ensures_lift]
      refine ⟨trivial, fun _ _ => .omitted e hopening hfree ?_ ?_⟩
      · simp
      · simp
    · rename_i hnone
      show w.blocked? L asset = some e
      rw [hblocked, hnone]
      rfl
  · show Attempt.Ensures _ _ _ (ExceptT.lift _ >>= _)
    rw [Attempt.ensures_bind, Attempt.ensures_lift]
    refine (answers_seed fraction).mono fun st hst => ?_
    refine .running st ((opening_of_ok hanswer.symm).trans (congrArg _ hst.symm)) ?_ hkept
    simp

/-- One more transfer of an open replay. -/
theorem progresses_replayOpen (hvalid : w.window.Valid) (hconfig : w.config.check = .ok ())
    {last : Option Int64} (hfind : b.find? t.asset = some { st with lastSnapshotAt := last })
    (hkept : b.isSkipped t.asset = false)
    (hst : w.progress L t.asset (done.ofAsset t.asset) = .ok st) :
    (w.replayOpen b { st with lastSnapshotAt := last } t).Ensures L.answers
      (fun b => Stands w L t.asset (done ++ [t]) (b.find? t.asset) (b.isSkipped t.asset))
      fun _ => False := by
  have hseen : (done ++ [t]).ofAsset t.asset ≠ [] := ofAsset_concat_ne_nil
  have hnext : w.progress L t.asset ((done ++ [t]).ofAsset t.asset) =
      if st.isFolded t.occurredAt then .ok st
      else (w.step st.fraction st.context t).map fun c => { st with context := c } := by
    rw [ofAsset_concat_self, progress_concat, hst]
    rfl
  have hrunning : ∀ (b : AccountBook) (st' : AssetState) (last : Option Int64),
      w.progress L t.asset ((done ++ [t]).ofAsset t.asset) = .ok st' →
      b.find? t.asset = some { st' with lastSnapshotAt := last } →
      b.isSkipped t.asset = false →
      Stands w L t.asset (done ++ [t]) (b.find? t.asset) (b.isSkipped t.asset) := by
    intro b st' last hst' hfind' hkept'
    rw [hfind', hkept']
    exact .running st' last hseen hst'
  unfold replayOpen
  by_cases hfolded : st.isFolded t.occurredAt = true
  · rw [if_pos (show AssetState.isFolded { st with lastSnapshotAt := last } _ = true from hfolded)]
    exact hrunning b st last (hnext.trans (if_pos hfolded)) hfind hkept
  rw [if_neg (show ¬AssetState.isFolded { st with lastSnapshotAt := last } _ = true from hfolded)]
  have hnext' : w.progress L t.asset ((done ++ [t]).ofAsset t.asset) =
      (w.step st.fraction st.context t).map fun c => { st with context := c } :=
    hnext.trans (if_neg hfolded)
  have hstep := settleAndApply_map_snd (w := w) { st with lastSnapshotAt := last } t
  rcases hsettle : w.settleAndApply { st with lastSnapshotAt := last } t.occurredAt
      (t.deltaFor w.account) with e | ⟨settled, applied⟩
  · -- a step that fails does so for reasons of its asset
    rw [hsettle] at hstep
    have hfails : w.step st.fraction st.context t = .error e := hstep.symm
    have hscoped := failsScoped_step hvalid (Config.custodyPeriod_pos hconfig) e hfails
    obtain ⟨cause, hcause⟩ := Error.assetCause?_of_assetScoped hscoped
    rw [hfails] at hnext'
    show Attempt.Ensures _ _ _ (w.omitOrFail b t.asset e)
    unfold omitOrFail
    rw [hcause]
    refine ⟨trivial, fun _ _ => ?_⟩
    show Stands w L t.asset (done ++ [t]) ((b.skip t.asset).find? t.asset)
      ((b.skip t.asset).isSkipped t.asset)
    rw [AccountBook.find?_skip, if_pos rfl, AccountBook.isSkipped_skip, if_pos rfl]
    exact .omitted e hseen (blocked?_of_progress hst) hnext'
  · rw [hsettle] at hstep
    have hdone : w.step st.fraction st.context t = .ok applied := hstep.symm
    rw [hdone] at hnext'
    show Attempt.Ensures _ _ _ (ite _ _ _)
    split
    · rw [Attempt.ensures_bind, Attempt.ensures_lift]
      refine (answers_checkpoint _ _).mono fun written _ => ?_
      rcases written with _ | control
      · refine hrunning _ _ last hnext' ?_ ?_
        · simp [hfind]
        · simpa using hkept
      · refine hrunning _ _ (some control) hnext' ?_ ?_
        · simp [hfind]
        · simpa using hkept
    · refine hrunning _ _ last hnext' ?_ ?_
      · simp [hfind]
      · simpa using hkept

/-- A replay takes its own asset from where it stands to where it stands after the transfer. -/
theorem progresses_replay (hvalid : w.window.Valid) (hconfig : w.config.check = .ok ())
    (h : Stands w L t.asset done (book.find? t.asset) (book.isSkipped t.asset)) :
    (w.replay book t).Ensures L.answers
      (fun b => w.blocked? L t.asset = none ∧
        Stands w L t.asset (done ++ [t]) (b.find? t.asset) (b.isSkipped t.asset))
      fun e => w.blocked? L t.asset = some e := by
  have hseen : (done ++ [t]).ofAsset t.asset ≠ [] := ofAsset_concat_ne_nil
  have hopen : ∀ (b : AccountBook) (st : AssetState) (last : Option Int64),
      w.progress L t.asset (done.ofAsset t.asset) = .ok st →
      b.find? t.asset = some { st with lastSnapshotAt := last } →
      b.isSkipped t.asset = false →
      Attempt.Ensures L.answers
        (fun b => w.blocked? L t.asset = none ∧
          Stands w L t.asset (done ++ [t]) (b.find? t.asset) (b.isSkipped t.asset))
        (fun e => w.blocked? L t.asset = some e)
        (w.replayOpen b { st with lastSnapshotAt := last } t) := by
    intro b st last hst hfind hkept
    refine (progresses_replayOpen hvalid hconfig hfind hkept hst).mono (fun b' hb' => ?_)
      fun _ he => he.elim
    exact ⟨blocked?_of_progress hst, hb'⟩
  have hprogress : ∀ r, w.opening L t.asset = r → done.ofAsset t.asset = [] →
      w.progress L t.asset (done.ofAsset t.asset) = r := by
    intro r hr hnil
    rw [hnil, progress_nil, hr]
  have hopened : ∀ b, Opens w L t.asset b → done.ofAsset t.asset = [] →
      Attempt.Ensures L.answers
        (fun b => w.blocked? L t.asset = none ∧
          Stands w L t.asset (done ++ [t]) (b.find? t.asset) (b.isSkipped t.asset))
        (fun e => w.blocked? L t.asset = some e) (w.resume t b) := by
    intro b hb hnil
    unfold resume
    rcases hb with ⟨st, hopening, hfind, hkept⟩ | ⟨e, hopening, hfree, hfind, hskip⟩
    · rw [hfind]
      exact hopen b st st.lastSnapshotAt (hprogress _ hopening hnil) hfind hkept
    · rw [hfind]
      refine ⟨hfree, ?_⟩
      rw [hfind, hskip]
      refine .omitted e hseen hfree ?_
      rw [ofAsset_concat_self]
      exact progress_concat_of_error (hprogress _ hopening hnil)
  generalize hstate : book.find? t.asset = state at h
  generalize hskipped : book.isSkipped t.asset = skipped at h
  rcases h with hnil | ⟨e, hmet, hfree, he⟩ | ⟨st, last, hmet, hst⟩
  · rw [replay_of_new hskipped hstate, Attempt.ensures_bind]
    exact (progresses_openAsset hskipped).mono (fun b hb => hopened b hb hnil) fun _ he => he
  · rw [replay_of_skipped hskipped]
    refine ⟨hfree, ?_⟩
    rw [hstate, hskipped]
    refine .omitted e hseen hfree ?_
    rw [ofAsset_concat_self]
    exact progress_concat_of_error he
  · rw [replay_of_open hskipped hstate]
    exact hopen book st last hst hstate hskipped

/-! ## All transfers -/

/-- What a part of a walk does by questions about one asset, and what it does as look-ups are
answered, it does in a report that its own recordings cannot influence. -/
theorem ensures_together {α : Type} {x : Attempt α} {post post' : α → Prop}
    {fail fail' : Error → Prop} (h : x.Ensures (w.about asset) post fail)
    (h' : x.Ensures L.answers post' fail') :
    x.Ensures (L.contract w.window.start) (fun a => post a ∧ post' a) fun e => fail e ∧ fail' e :=
  h.and h' (fun _ hq _ => hq.asked) fun _ _ ha => ⟨trivial, ha⟩

/-- The book is right about every asset. -/
structure Reflects (w : Walk) (L : Lookups) (done : Commits) (book : AccountBook) : Prop where
  inOrder : w.InOrder book
  free : ∀ t ∈ done, w.blocked? L t.asset = none
  stands : ∀ asset, Stands w L asset done (book.find? asset) (book.isSkipped asset)

theorem reflects_empty : Reflects w L [] (.empty w.account) :=
  ⟨inOrder_empty, fun _ h => (nomatch h), fun _ => .unseen rfl⟩

/-- One transfer: its own asset makes progress, and no other one changes. -/
theorem ensures_reflects_replay (hvalid : w.window.Valid) (hconfig : w.config.check = .ok ())
    (h : Reflects w L done book) :
    (w.replay book t).Ensures (L.contract w.window.start) (Reflects w L (done ++ [t]))
      fun e => w.blocked? L t.asset = some e := by
  have hboth := ensures_together (touches_replay h.inOrder)
    (progresses_replay hvalid hconfig (h.stands t.asset))
  refine hboth.mono (fun b hb => ?_) fun _ he => he.2
  obtain ⟨⟨hordered, hothers⟩, hfree, hown⟩ := hb
  refine ⟨hordered, fun t' ht' => ?_, fun asset => ?_⟩
  · rcases List.mem_append.mp ht' with ht' | ht'
    · exact h.free t' ht'
    · rw [List.mem_singleton.mp ht']
      exact hfree
  · by_cases hne : asset = t.asset
    · rw [hne]
      exact hown
    · rw [← (hothers asset hne).state, ← (hothers asset hne).skipped]
      exact (h.stands asset).congr (ofAsset_concat_of_ne (Ne.symm hne))

/-- The transfers of a page, up to the first error of a rate. -/
theorem ensures_reflects_replayAll (hvalid : w.window.Valid) (hconfig : w.config.check = .ok ())
    (h : Reflects w L done book) (items : Commits) :
    let ts := items.filter fun t => t.countsBefore w.window.stop
    (w.replayAll book items).Ensures (L.contract w.window.start)
      (fun b => (ts.findSome? fun t => w.blocked? L t.asset) = none ∧
        Reflects w L (done ++ ts) b)
      fun e => (ts.findSome? fun t => w.blocked? L t.asset) = some e := by
  intro ts
  unfold replayAll
  have hbody : ∀ (before : Commits) (t : Transfer) (after : Commits) (b : AccountBook),
      before ++ t :: after = ts ∧ Reflects w L (done ++ before) b →
      (w.replay b t).Ensures (L.contract w.window.start)
        (fun b => before ++ [t] ++ after = ts ∧ Reflects w L (done ++ (before ++ [t])) b)
        fun e => (ts.findSome? fun t => w.blocked? L t.asset) = some e := by
    intro before t after b hb
    obtain ⟨hsplit, hreflects⟩ := hb
    refine (ensures_reflects_replay hvalid hconfig hreflects).mono (fun b' hb' => ?_)
      fun e he => ?_
    · rw [List.append_assoc] at hb'
      exact ⟨(List.append_assoc before [t] after).trans hsplit, hb'⟩
    · have hbefore : (before.findSome? fun t => w.blocked? L t.asset) = none :=
        List.findSome?_eq_none_iff.mpr fun t ht =>
          hreflects.free t (List.mem_append_right _ ht)
      rw [← hsplit, List.findSome?_append, hbefore, Option.none_or, List.findSome?_cons, he]
  have hfold := Attempt.ensures_foldlM
    (fun before after b => before ++ after = ts ∧ Reflects w L (done ++ before) b)
    hbody ts [] book ⟨rfl, (List.append_nil done).symm ▸ h⟩
  refine hfold.mono (fun b hb => ⟨?_, hb.2⟩) fun _ he => he
  rw [List.findSome?_eq_none_iff]
  exact fun t ht => hb.2.free t (List.mem_append_right _ ht)

/-- The pages from the `n`-th on, as far as they can be read. -/
theorem ensures_reflects_replayPages (hvalid : w.window.Valid) (hconfig : w.config.check = .ok ())
    (n : Nat) {done : Commits} {book : AccountBook} (h : Reflects w L done book) :
    (w.replayPages n book).Ensures (L.contract w.window.start)
      (fun b => w.failure? L (w.reading L n) = none ∧ Reflects w L (done ++ (w.reading L n).1) b)
      fun e => w.failure? L (w.reading L n) = some e := by
  rw [replayPages, Attempt.ensures_bind, Attempt.ensures_question]
  refine ⟨trivial, fun answer hallowed => ?_⟩
  have hanswer : answer = L.transfers w.account w.window.stop ⟨n, w.config.transferPageSize⟩ :=
    hallowed
  rw [reading, ← hanswer]
  rcases answer with e | listing
  · exact rfl
  show Attempt.Ensures _ _ _ (w.replayAll book listing.items >>= _)
  rw [Attempt.ensures_bind]
  have hpage := ensures_reflects_replayAll (L := L) hvalid hconfig h listing.items
  by_cases hnext : (Page.ofListing ⟨n, w.config.transferPageSize⟩ listing).hasNext = true
  · simp only [dif_pos hnext]
    refine hpage.mono (fun b hb => ?_) fun e he => ?_
    · obtain ⟨hfree, hb⟩ := hb
      refine (ensures_reflects_replayPages hvalid hconfig (n + 1) hb).mono (fun b' hb' => ?_)
        fun e he => ?_
      · rw [List.append_assoc] at hb'
        rw [failure?_append, hfree]
        exact hb'
      · rw [failure?_append, hfree]
        exact he
    · rw [failure?_append, he]
      rfl
  · simp only [dif_neg hnext]
    refine hpage.mono (fun b hb => ?_) fun e he => ?_
    · refine ⟨?_, hb.2⟩
      unfold failure?
      rw [hb.1]
      rfl
    · unfold failure?
      rw [he]
      rfl
  termination_by maxPage - n
  decreasing_by
    have hlt : n < maxPage := Page.number_lt_maxPage hnext
    show maxPage - (n + 1) < maxPage - n
    omega

/-! ## The end of the window -/

/-- Settling an open replay at the end gives the totals of its asset. -/
theorem progresses_finishAsset (hvalid : w.window.Valid) (hconfig : w.config.check = .ok ())
    {ts : Commits} (h : w.progress L asset ts = .ok st) (last : Option Int64) :
    (w.finishAsset asset { st with lastSnapshotAt := last }).Ensures L.answers
      (· = w.totals L asset ts) fun _ => False := by
  have htotals := totals_of_ok h
  unfold finishAsset
  rcases hsettle : st.context.settle w.window w.window.stop st.fraction w.config.custodyPeriod with
    e | settled
  · rw [hsettle] at htotals
    obtain ⟨cause, hcause⟩ :=
      Context.exists_cause_of_settle hvalid (Config.custodyPeriod_pos hconfig) hsettle
    simp only [hcause]
    exact ⟨trivial, fun _ _ => htotals.symm⟩
  · rw [hsettle] at htotals
    show Attempt.Ensures _ _ _ (ExceptT.lift _ >>= _)
    rw [Attempt.ensures_bind, Attempt.ensures_lift]
    exact (answers_checkpoint _ _).mono fun _ _ => htotals.symm

/-- At the end of the window the open assets that have totals are kept. -/
theorem ensures_totals_finish (hvalid : w.window.Valid) (hconfig : w.config.check = .ok ())
    {ts : Commits} (entries : Keyed AssetState)
    (h : ∀ e ∈ entries, ∃ (st : AssetState) (last : Option Int64),
      e.2 = { st with lastSnapshotAt := last } ∧ w.progress L e.1 (ts.ofAsset e.1) = .ok st) :
    (w.finish entries).Ensures (L.contract w.window.start)
      (· = entries.choose fun asset _ => w.totals L asset (ts.ofAsset asset))
      fun _ => False := by
  induction entries with
  | nil => exact rfl
  | cons e rest ih =>
    obtain ⟨asset, st'⟩ := e
    obtain ⟨st, last, hst', hst⟩ := h _ List.mem_cons_self
    have hst' : st' = { st with lastSnapshotAt := last } := hst'
    have hst : w.progress L asset (ts.ofAsset asset) = .ok st := hst
    have htotals := progresses_finishAsset hvalid hconfig hst last
    rw [← hst'] at htotals
    have hfirst := ensures_together (touches_finishAsset hvalid.1 st') htotals
    rw [finish, Attempt.ensures_bind]
    refine hfirst.mono (fun custody hcustody => ?_) fun _ he => he.2
    rw [Attempt.ensures_bind]
    refine (ih fun e he => h e (List.mem_cons_of_mem _ he)).mono (fun others hothers => ?_)
      fun _ he => he
    rw [Keyed.choose_cons, ← hcustody.2, ← hothers]
    rcases custody with _ | c
    · exact rfl
    · exact rfl

/-- The open assets that have totals are those met that have totals. -/
theorem choose_reflected {ts : Commits} (h : Reflects w L ts book) :
    (book.assets.choose fun asset _ => w.totals L asset (ts.ofAsset asset)) =
      .tabulate (fun asset => w.totals L asset (ts.ofAsset asset)) (ts.map Transfer.asset) := by
  refine (h.inOrder.sorted.choose _).ext (Keyed.sorted_tabulate _ _) fun asset => ?_
  rw [h.inOrder.sorted.find?_choose, Keyed.find?_tabulate]
  have hstands := h.stands asset
  show (book.find? asset).bind _ = _
  generalize book.find? asset = state at hstands ⊢
  generalize book.isSkipped asset = skipped at hstands
  rcases hstands with hnil | ⟨e, hseen, -, he⟩ | ⟨st, last, hseen, hst⟩
  · rw [if_neg (Commits.ofAsset_eq_nil_iff.mp hnil)]
    rfl
  · rw [totals_of_error he, ite_self]
    rfl
  · rw [if_pos (Decidable.not_not.mp (mt Commits.ofAsset_eq_nil_iff.mpr hseen))]
    rfl

/-! ## The whole walk -/

/-- A walk ends in its result, whatever becomes of the snapshots it records. -/
theorem ensures_result (L : Lookups) (hvalid : w.window.Valid)
    (hconfig : w.config.check = .ok ()) :
    Dialogue.Ensures (L.contract w.window.start) (· = w.result L) w.run.run := by
  rw [Attempt.ensures_run_eq, run, Attempt.ensures_bind]
  refine (ensures_reflects_replayPages hvalid hconfig 1 reflects_empty).mono
    (fun book hbook => ?_) fun e he => ?_
  · obtain ⟨hfree, hbook⟩ := hbook
    rw [List.nil_append] at hbook
    have hopen : ∀ e ∈ book.assets, ∃ (st : AssetState) (last : Option Int64),
        e.2 = { st with lastSnapshotAt := last } ∧
          w.progress L e.1 ((w.reading L 1).1.ofAsset e.1) = .ok st := by
      intro e he
      have hstands := hbook.stands e.1
      have hfind : book.find? e.1 = some e.2 := hbook.inOrder.sorted.find?_of_mem he
      rw [hfind] at hstands
      generalize hstate : e.2 = state at hstands
      generalize book.isSkipped e.1 = skipped at hstands
      rcases hstands with _ | _ | ⟨st, last, -, hst⟩
      exact ⟨st, last, rfl, hst⟩
    rw [Attempt.ensures_bind]
    refine (ensures_totals_finish hvalid hconfig book.assets hopen).mono (fun assets hassets => ?_)
      fun e he => he.elim
    show w.result L = .ok ⟨w.account, assets⟩
    rw [result_of_reading hfree, hassets, choose_reflected hbook]
  · exact result_of_failure he

end Walk

/-! ## Reports -/

namespace Report

variable {config : Config} {start stop : Int64}

theorem ensures_walk_result (L : Lookups) (hconfig : config.check = .ok ()) {window : Window}
    (account : Account) (hwindow : Window.make start stop = .ok window) :
    Dialogue.Ensures (L.contract start) (· = (Walk.make config window account).result L)
      (Walk.make config window account).run.run := by
  have hmade := Window.make_eq_ok hwindow
  have hstart : start = (Walk.make config window account).window.start :=
    (congrArg Window.start hmade.1).symm
  rw [hstart]
  exact Walk.ensures_result L hmade.2 hconfig

/-- A report on an account ends in its result. -/
theorem ensures_account_result (L : Lookups) (hconfig : config.check = .ok ()) (id : String)
    (start stop : Int64) :
    Dialogue.Ensures (L.contract start)
      (· = accountFrom (fun window a => (Walk.make config window a).result L) id start stop)
      (account config id start stop).run :=
  ensures_accountFrom (fun _ account hwindow => ensures_walk_result L hconfig account hwindow) id

/-- A report on a page of accounts ends in its result, whatever the width. -/
theorem ensures_accounts_result (L : Lookups) (hconfig : config.check = .ok ())
    (domain : Option String) (start stop : Int64) (page : PageRequest) :
    Dialogue.Ensures (L.contract start)
      (· = accountsFrom (L.accounts domain page)
        (fun window a => (Walk.make config window a).result L) start stop page)
      (accounts config domain start stop page).run :=
  ensures_accountsFrom ⟨trivial, trivial⟩ (fun _ hallowed => hallowed)
    fun _ account hwindow => ensures_walk_result L hconfig account hwindow

end Report

end Custodian
