import Custodian.Proofs.Ledger.Paging
import Custodian.Proofs.Replay.Standing

/-!
# A walk comes to its outcome

Against stores that keep the contract of a world, a walk ends in `Walk.outcome`, whatever its
snapshot settings, and records only sound snapshots (`Walk.ensures_run`). The proof goes
through the program from the inside out: opening an asset, one transfer, a page, all pages,
the end of the window. What each of them keeps is `Tracks`.
-/

namespace Custodian

namespace Walk

variable {w : Walk} {W : World} {done rest : Commits} {book : AccountBook} {asset : String}
  {t : Transfer}

/-! ## Recording a snapshot -/

/-- The balance of all transfers of an asset from before an instant is the one a snapshot of
that instant has to carry. -/
theorem sound_snapshot {settled : Context} (hstop : settled.control ≤ w.window.stop)
    (h : (((w.stream W).ofAsset asset).before settled.control).balance w.account =
      some settled.balance) : (settled.snapshot w.account asset).Sound W.transfers := by
  rw [Commits.before_ofAsset, stream, Commits.before_ofAccount hstop] at h
  exact h

/-- Recording a sound snapshot is admitted, and whether it fails does not matter. -/
theorem ensures_checkpoint (hw : w.Regular W) {settled : Context} (last : Option Int64)
    (hstop : settled.control ≤ w.window.stop)
    (hsound : (settled.snapshot w.account asset).Sound W.transfers) :
    (w.checkpoint asset settled last).Ensures W.contract fun _ => True := by
  unfold checkpoint
  split
  · rename_i hdue
    have henabled : w.config.snapshotsEnabled = true := (Bool.and_eq_true_iff.mp hdue).1
    obtain ⟨horizon, hhorizon, hreach⟩ := hw.snapshots henabled
    rw [Dialogue.ensures_bind, Dialogue.ensures_question]
    refine ⟨⟨⟨horizon, hhorizon, Int64.le_trans hstop hreach⟩, hsound⟩, fun answer _ => ?_⟩
    rcases answer with e | ⟨⟩
    · rw [Dialogue.ensures_bind, World.ensures_note]
      exact trivial
    · exact trivial
  · exact trivial

/-! ## Opening an asset -/

/-- Whatever a look-up of a snapshot gives, the replay follows the stream. -/
theorem ensures_seed {fraction : Decimal} (hw : w.Regular W)
    (hrate : W.rate w.scope asset = .ok fraction) (hsplit : done ++ rest = w.stream W)
    (hfirst : done.ofAsset asset = []) :
    (w.policy.seed w.account asset w.window fraction).Ensures W.contract
      (Follows w W asset done rest) := by
  unfold SnapshotPolicy.seed
  split
  · rename_i henabled
    rw [Dialogue.ensures_bind, Dialogue.ensures_question]
    obtain ⟨horizon, hhorizon, -⟩ := hw.snapshots henabled
    refine ⟨Option.isSome_of_mem hhorizon, fun answer hallowed => ?_⟩
    rcases answer with e | _ | snapshot
    · rw [Dialogue.ensures_bind, World.ensures_note]
      exact Follows.genesis hrate hfirst
    · exact Follows.genesis hrate hfirst
    · obtain ⟨haccount, hasset, hcontrol, hsound⟩ := hallowed snapshot rfl
      exact Follows.seeded hw.window hrate hsplit hfirst haccount hasset hcontrol hsound
  · exact Follows.genesis hrate hfirst

/-- An error either concerns one asset, which is then left out, or ends the walk. -/
theorem ensures_omitOrFail {post : AccountBook → Prop} {fail : Error → Prop} {e : Error}
    (hpost : ∀ cause, e.assetCause? = some cause → post (book.skip asset))
    (hfail : e.assetCause? = none → fail e) :
    (w.omitOrFail book asset e).Ensures W.contract post fail := by
  unfold omitOrFail
  rcases hcause : e.assetCause? with _ | cause
  · exact hfail hcause
  · show Attempt.Ensures _ _ _ (ExceptT.lift (w.omitAsset book asset cause))
    rw [Attempt.ensures_lift, omitAsset, Dialogue.ensures_bind, World.ensures_note]
    exact hpost cause hcause

/-- What is known once the replay of the next transfer's asset has been opened. -/
inductive Opened (w : Walk) (W : World) (done : Commits) (t : Transfer) (rest : Commits)
    (book : AccountBook) : Prop
  | running (st : AssetState) (hfind : book.find? t.asset = some st)
      (hkept : book.isSkipped t.asset = false) (h : Follows w W t.asset done (t :: rest) st)
  | omitted (hfind : book.find? t.asset = none) (hskipped : book.isSkipped t.asset = true)
      (hrate : w.rateFailure? W t.asset = none) (h : w.custodyOf W t.asset = none)

theorem ensures_openAsset (hw : w.Regular W)
    (h : TracksBut w W t.asset done (t :: rest) book) (hkept : book.isSkipped t.asset = false)
    (hfirst : done.ofAsset t.asset = []) :
    (w.openAsset book t.asset).Ensures W.contract
      (fun b => TracksBut w W t.asset done (t :: rest) b ∧ Opened w W done t rest b)
      fun e => w.outcome W = .error e := by
  unfold openAsset
  rw [Attempt.ensures_bind, Attempt.ensures_question]
  refine ⟨trivial, fun answer hallowed => ?_⟩
  have hanswer : answer = W.rate w.scope t.asset := hallowed
  rcases answer with e | fraction
  · have hrate : w.rateFailure? W t.asset = if e.assetCause?.isSome then none else some e := by
      unfold rateFailure?
      rw [← hanswer]
    refine ensures_omitOrFail (fun cause hcause => ⟨h.skip, .omitted ?_ ?_ ?_ ?_⟩) fun hnone => ?_
    · rw [AccountBook.find?_skip, if_pos rfl]
    · rw [AccountBook.isSkipped_skip, if_pos rfl]
    · rw [hrate, hcause, Option.isSome_some, if_pos rfl]
    · exact custodyOf_of_error hanswer.symm
    · refine outcome_of_rateFailure h.split h.rates ?_
      rw [hrate, hnone, Option.isSome_none, if_neg Bool.false_ne_true]
  · show Attempt.Ensures _ _ _ (ExceptT.lift _ >>= _)
    rw [Attempt.ensures_bind, Attempt.ensures_lift]
    refine (ensures_seed hw hanswer.symm h.split hfirst).mono fun st hst => ?_
    refine ⟨h.insert st, .running st ?_ hkept hst⟩
    rw [AccountBook.find?_insert, if_pos rfl]

/-! ## One transfer -/

/-- Settling and then moving the balance is one step. -/
theorem settleAndApply_map_snd (st : AssetState) (t : Transfer) :
    (w.settleAndApply st t.occurredAt (t.deltaFor w.account)).map Prod.snd =
      w.step st.fraction st.context t := by
  unfold settleAndApply step
  rcases st.context.settle w.window t.occurredAt st.fraction w.config.custodyPeriod with
    e | settled
  · rfl
  · show (settled.applyDelta (t.deltaFor w.account) >>= fun applied =>
      pure (settled, applied)).map Prod.snd = settled.applyDelta (t.deltaFor w.account)
    rcases settled.applyDelta (t.deltaFor w.account) with e | applied
    · rfl
    · rfl

theorem settle_of_settleAndApply {st : AssetState} {settled applied : Context}
    (h : w.settleAndApply st t.occurredAt (t.deltaFor w.account) = .ok (settled, applied)) :
    st.context.settle w.window t.occurredAt st.fraction w.config.custodyPeriod = .ok settled := by
  unfold settleAndApply at h
  obtain ⟨settled', hsettled, h⟩ := except_bind_eq_ok_iff.mp h
  obtain ⟨applied', -, h⟩ := except_bind_eq_ok_iff.mp h
  cases h
  exact hsettled

/-- The stamps of one asset ascend through what is done, the next transfer and the rest. -/
theorem Regular.pairwise (hw : w.Regular W) (hsplit : done ++ t :: rest = w.stream W) :
    (∀ t' ∈ done, t'.occurredAt ≤ t.occurredAt) ∧ ∀ t' ∈ rest, t.occurredAt ≤ t'.occurredAt := by
  have hordered := hw.ordered.ofAccount w.account w.window.stop
  rw [← stream, ← hsplit, List.pairwise_append, List.pairwise_cons] at hordered
  exact ⟨fun t' ht' => hordered.2.2 t' ht' t List.mem_cons_self, hordered.2.1.1⟩

/-- The snapshot that is due before a transfer moves the balance is sound. -/
theorem sound_before_transfer (hw : w.Regular W) (hsplit : done ++ t :: rest = w.stream W)
    {st : AssetState} {settled : Context}
    (hdone : w.accrual st.fraction (done.ofAsset t.asset) = .ok st.context)
    (hsettled : st.context.settle w.window t.occurredAt st.fraction w.config.custodyPeriod =
      .ok settled) (hmoved : st.context.control < settled.control) :
    settled.control ≤ w.window.stop ∧
      (settled.snapshot w.account t.asset).Sound W.transfers := by
  obtain ⟨hbalance, -, -, hcontrol⟩ := Context.frame_of_settle hsettled
  have hat := hcontrol hmoved
  have hreach := (reach_of_advance hdone).2.1
  have hstop : settled.control ≤ w.window.stop := by
    have hmem : t ∈ w.stream W := hsplit ▸ List.mem_append_right _ List.mem_cons_self
    rw [hat]
    exact Int64.le_of_lt (Commits.mem_ofAccount.mp hmem).2.2.2
  refine ⟨hstop, sound_snapshot hstop ?_⟩
  -- what is done is from before the new control point, everything else is not
  rw [← hsplit, Commits.ofAsset_append, Commits.before_append, hbalance]
  · exact balance_of_accrual hdone
  · intro t' ht'
    exact Int64.lt_of_le_of_lt (hreach t' ht') hmoved
  · intro t' ht'
    rw [hat]
    rcases List.mem_cons.mp (Commits.mem_ofAsset.mp ht').1 with rfl | ht'
    · exact Int64.le_refl _
    · exact (hw.pairwise hsplit).2 t' ht'

theorem ensures_replayOpen (hw : w.Regular W) {st : AssetState}
    (h : TracksBut w W t.asset done (t :: rest) book) (hfind : book.find? t.asset = some st)
    (hkept : book.isSkipped t.asset = false) (hst : Follows w W t.asset done (t :: rest) st) :
    (w.replayOpen book st t).Ensures W.contract (Tracks w W (done ++ [t]) rest)
      fun e => w.outcome W = .error e := by
  have hrate := rateFailure?_of_ok hst.rate
  have hseen : (done ++ [t]).ofAsset t.asset ≠ [] := ofAsset_concat_ne_nil
  have hafter := (hw.pairwise h.split).2
  unfold replayOpen
  by_cases hfolded : st.isFolded t.occurredAt = true
  · rw [if_pos hfolded, Attempt.ensures_pure]
    refine h.next hrate ?_
    rw [hfind, hkept]
    exact .running hseen (hst.fold hfolded)
  rw [if_neg hfolded]
  have hnot : st.isFolded t.occurredAt = false := Bool.eq_false_iff.mpr hfolded
  have hdone := hst.accrual_done hnot hafter
  have hstep := settleAndApply_map_snd (w := w) st t
  rcases hsettle : w.settleAndApply st t.occurredAt (t.deltaFor w.account) with
    e | ⟨settled, applied⟩
  · -- the step fails, and the outcome has no totals for the asset either
    rw [hsettle] at hstep
    have hscoped := failsScoped_step hw.window (Config.custodyPeriod_pos hw.settings) e hstep.symm
    obtain ⟨cause, hcause⟩ := Error.assetCause?_of_assetScoped hscoped
    refine ensures_omitOrFail (fun _ _ => h.skip.next hrate ?_) fun hnone => ?_
    · rw [AccountBook.find?_skip, if_pos rfl, AccountBook.isSkipped_skip, if_pos rfl]
      have hsplit : (done ++ [t]) ++ rest = w.stream W := by
        rw [List.append_assoc, List.singleton_append]
        exact h.split
      refine .omitted hseen (custodyOf_of_failure hst.rate hsplit (e := e) ?_)
      rw [Commits.ofAsset_append, Commits.ofAsset_cons, if_pos rfl, Commits.ofAsset_nil,
        accrual_concat, hdone]
      exact hstep.symm
    · rw [hcause] at hnone
      cases hnone
  · rw [hsettle] at hstep
    have hsettled := settle_of_settleAndApply hsettle
    have hadvance : ∀ last, Follows w W t.asset (done ++ [t]) rest
        { st with context := applied, lastSnapshotAt := last } := fun last =>
      hst.advance hnot hafter hstep.symm rfl rfl
    have hmodified := h.modify fun s => { s with context := applied }
    have hfind' : (book.modify t.asset fun s => { s with context := applied }).find? t.asset =
        some { st with context := applied } := by
      rw [AccountBook.find?_modify, if_pos rfl, hfind, Option.map_some]
    have hunchanged : Tracks w W (done ++ [t]) rest
        (book.modify t.asset fun s => { s with context := applied }) := by
      refine hmodified.next hrate ?_
      rw [hfind', AccountBook.isSkipped_modify, hkept]
      exact .running hseen (hadvance _)
    show Attempt.Ensures _ _ _ (ite _ _ _)
    by_cases hmoved : st.context.control < settled.control
    · rw [if_pos hmoved, Attempt.ensures_bind, Attempt.ensures_lift]
      obtain ⟨hstop, hsound⟩ := sound_before_transfer hw h.split hdone hsettled hmoved
      refine (ensures_checkpoint hw st.lastSnapshotAt hstop hsound).mono fun written _ => ?_
      rcases written with _ | control
      · exact hunchanged
      · refine (hmodified.modify fun s => { s with lastSnapshotAt := some control }).next hrate ?_
        rw [AccountBook.find?_modify, if_pos rfl, hfind', Option.map_some,
          AccountBook.isSkipped_modify, AccountBook.isSkipped_modify, hkept]
        exact .running hseen (hadvance _)
    · rw [if_neg hmoved]
      exact hunchanged

/-- Once its asset has been opened a transfer is replayed or passed over. -/
theorem ensures_opened (hw : w.Regular W) (h : TracksBut w W t.asset done (t :: rest) book)
    (hopened : Opened w W done t rest book) :
    Attempt.Ensures W.contract (Tracks w W (done ++ [t]) rest) (fun e => w.outcome W = .error e)
      (match book.find? t.asset with
      | some state => w.replayOpen book state t
      | none => return book) := by
  rcases hopened with ⟨st, hfind, hkept, hst⟩ | ⟨hfind, hskipped, hrate, hnone⟩
  · rw [hfind]
    exact ensures_replayOpen hw h hfind hkept hst
  · rw [hfind]
    refine h.next hrate ?_
    rw [hfind, hskipped]
    exact .omitted ofAsset_concat_ne_nil hnone

/-- Replaying one transfer keeps the book right. -/
theorem ensures_replay (hw : w.Regular W) (h : Tracks w W done (t :: rest) book) :
    (w.replay book t).Ensures W.contract (Tracks w W (done ++ [t]) rest)
      fun e => w.outcome W = .error e := by
  have hbut := h.but t.asset
  have hstanding := h.standing t.asset
  unfold replay
  generalize hfind : book.find? t.asset = state at hstanding
  generalize hskipped : book.isSkipped t.asset = skipped at hstanding
  rcases hstanding with hfirst | ⟨hseen, hnone⟩ | ⟨hseen, hst⟩
  · rw [if_neg Bool.false_ne_true, Attempt.ensures_bind]
    exact (ensures_openAsset hw hbut hskipped hfirst).mono
      (fun b hb => ensures_opened hw hb.1 hb.2) fun e he => he
  · rw [if_pos rfl, Attempt.ensures_pure]
    obtain ⟨t', ht'⟩ := List.exists_mem_of_ne_nil _ hseen
    obtain ⟨hdone, hasset⟩ := Commits.mem_ofAsset.mp ht'
    refine hbut.next (hasset ▸ h.rates t' hdone) ?_
    rw [hfind, hskipped]
    exact .omitted ofAsset_concat_ne_nil hnone
  · rw [if_neg Bool.false_ne_true, Attempt.ensures_bind, Attempt.ensures_pure]
    exact ensures_opened hw hbut (.running _ hfind hskipped hst)

/-! ## All transfers -/

/-- Replaying part of the stream keeps the book right. -/
theorem ensures_replayAll (hw : w.Regular W) {items : Commits}
    (h : Tracks w W done (items ++ rest) book) :
    (w.replayAll book items).Ensures W.contract (Tracks w W (done ++ items) rest)
      fun e => w.outcome W = .error e := by
  have hcounts : ∀ t ∈ items, t.countsBefore w.window.stop = true := by
    intro t ht
    have hmem : t ∈ w.stream W :=
      h.split ▸ List.mem_append_right _ (List.mem_append_left _ ht)
    obtain ⟨-, -, hrejected, hlt⟩ := Commits.mem_ofAccount.mp hmem
    rw [Transfer.countsBefore, hrejected, decide_eq_true hlt]
    rfl
  unfold replayAll
  rw [List.filter_eq_self.mpr hcounts]
  refine Attempt.ensures_foldlM
    (fun before after b => Tracks w W (done ++ before) (after ++ rest) b)
    (fun before t after b hb => ?_) items [] book ?_
  · rw [← List.append_assoc]
    exact ensures_replay hw hb
  · rw [List.append_nil]
    exact h

/-- The pages from the `n`-th on hold what the pages before it do not. -/
theorem ensures_replayPages (hw : w.Regular W) (n : Nat) (book : AccountBook) (hn : 0 < n)
    (h : Tracks w W ((w.stream W).take ((n - 1) * w.config.transferPageSize))
      ((w.stream W).drop ((n - 1) * w.config.transferPageSize)) book) :
    (w.replayPages n book).Ensures W.contract (Tracks w W (w.stream W) [])
      fun e => w.outcome W = .error e := by
  have hsize := Config.transferPageSize_pos hw.settings
  rw [replayPages, Attempt.ensures_bind, Attempt.ensures_question]
  refine ⟨(PageRequest.check_eq_ok_iff _).mpr ⟨hn, hsize⟩, fun answer hallowed => ?_⟩
  have hanswer : answer = .ok (W.listing w.account w.window.stop ⟨n, _⟩) := hallowed
  rw [hanswer]
  let r : PageRequest := ⟨n, w.config.transferPageSize⟩
  have hpage : Tracks w W ((w.stream W).take r.offset)
      (r.slice (w.stream W) ++ (w.stream W).drop (r.number * r.size)) book := by
    rw [r.slice_append_drop hn]
    exact h
  show Attempt.Ensures _ _ _ (w.replayAll book (r.slice (w.stream W)) >>= _)
  rw [Attempt.ensures_bind]
  refine (ensures_replayAll hw hpage).mono (fun b hb => ?_) fun e he => he
  rw [r.take_offset_append_slice hn] at hb
  by_cases hnext : (Page.ofListing ⟨n, w.config.transferPageSize⟩
      (W.listing w.account w.window.stop ⟨n, w.config.transferPageSize⟩)).hasNext = true
  · rw [dif_pos hnext]
    exact ensures_replayPages hw (n + 1) b (Nat.succ_pos n) hb
  · rw [dif_neg hnext, Attempt.ensures_pure]
    -- nothing is left behind the last page
    have hall : (w.stream W).length ≤ n * w.config.transferPageSize := by
      rcases Page.total_le_of_last hsize hnext with hle | hmax
      · exact hle
      · have hfits := hw.fits
        have hmul := Nat.mul_le_mul_right w.config.transferPageSize hmax
        rw [Nat.mul_comm] at hfits
        exact Nat.le_trans hfits hmul
    rw [List.take_of_length_le hall, List.drop_of_length_le hall] at hb
    exact hb
  termination_by maxPage - n
  decreasing_by
    have hlt : n < maxPage := Page.number_lt_maxPage hnext
    show maxPage - (n + 1) < maxPage - n
    omega

/-! ## The end of the window -/

/-- Every asset that is still open is settled, and has the totals of the outcome. -/
theorem ensures_finishAsset (hw : w.Regular W) {st : AssetState}
    (h : Follows w W asset (w.stream W) [] st) :
    (w.finishAsset asset st).Ensures W.contract (· = w.custodyOf W asset) fun _ => False := by
  have haccrual : w.accrual st.fraction ((w.stream W).ofAsset asset) = .ok st.context := by
    have hcontext := h.context
    rwa [Commits.ofAsset_nil, show st.folded [] = [] from rfl, List.append_nil] at hcontext
  have hcustody := custodyOf_of_accrual h.rate haccrual
  unfold finishAsset
  rcases hsettle : st.context.settle w.window w.window.stop st.fraction w.config.custodyPeriod with
    e | settled
  · rw [hsettle] at hcustody
    obtain ⟨cause, hcause⟩ :=
      Context.exists_cause_of_settle hw.window (Config.custodyPeriod_pos hw.settings) hsettle
    simp only [hcause]
    rw [Attempt.ensures_bind, Attempt.note, Attempt.question, Attempt.ensures_lift,
      World.ensures_note]
    exact hcustody.symm
  · rw [hsettle] at hcustody
    obtain ⟨hbalance, hforward, hreached, hmoved⟩ := Context.frame_of_settle hsettle
    have hlt : ∀ t ∈ (w.stream W).ofAsset asset, t.occurredAt < w.window.stop := fun t ht =>
      (Commits.mem_ofAccount.mp (Commits.mem_ofAsset.mp ht).1).2.2.2
    have hbehind : st.context.control < w.window.stop := by
      rcases (reach_of_advance haccrual).2.2 with hat | ⟨t, ht, hat⟩
      · rw [hat]
        exact hw.window.1
      · rw [hat]
        exact hlt t ht
    have hat := hmoved (Int64.lt_of_lt_of_le hbehind hreached)
    have hstop : settled.control ≤ w.window.stop := hat ▸ Int64.le_refl _
    have hsound : (settled.snapshot w.account asset).Sound W.transfers := by
      refine sound_snapshot hstop ?_
      rw [hat, Commits.before, List.filter_eq_self.mpr, hbalance]
      · exact balance_of_accrual haccrual
      · intro t ht
        exact decide_eq_true (hlt t ht)
    show Attempt.Ensures _ _ _ (ExceptT.lift _ >>= _)
    rw [Attempt.ensures_bind, Attempt.ensures_lift]
    exact (ensures_checkpoint hw st.lastSnapshotAt hstop hsound).mono fun _ _ => hcustody.symm

/-- At the end of the window the open assets that have totals are kept. -/
theorem ensures_finish (hw : w.Regular W) (entries : Keyed AssetState)
    (h : ∀ e ∈ entries, Follows w W e.1 (w.stream W) [] e.2) :
    (w.finish entries).Ensures W.contract (· = entries.choose fun asset _ => w.custodyOf W asset)
      fun _ => False := by
  induction entries with
  | nil => exact rfl
  | cons e rest ih =>
    obtain ⟨asset, st⟩ := e
    rw [finish, Attempt.ensures_bind]
    refine (ensures_finishAsset hw (h _ List.mem_cons_self)).mono (fun custody hcustody => ?_)
      fun _ he => he
    rw [Attempt.ensures_bind]
    refine (ih fun e he => h e (List.mem_cons_of_mem _ he)).mono (fun others hothers => ?_)
      fun _ he => he
    rw [Keyed.choose_cons, ← hcustody, ← hothers]
    rcases custody with _ | c
    · exact rfl
    · exact rfl

/-- The open assets that have totals are the assets of the stream that have totals. -/
theorem choose_assets (h : Tracks w W (w.stream W) [] book) :
    (book.assets.choose fun asset _ => w.custodyOf W asset) =
      .tabulate (w.custodyOf W) ((w.stream W).map Transfer.asset) := by
  refine (h.sorted.choose _).ext (Keyed.sorted_tabulate _ _) fun asset => ?_
  rw [h.sorted.find?_choose, Keyed.find?_tabulate]
  have hstanding := h.standing asset
  show (book.find? asset).bind _ = _
  generalize book.find? asset = state at hstanding ⊢
  generalize book.isSkipped asset = skipped at hstanding
  rcases hstanding with hnil | ⟨hseen, hnone⟩ | ⟨hseen, hst⟩
  · rw [if_neg (Commits.ofAsset_eq_nil_iff.mp hnil)]
    rfl
  · rw [hnone, ite_self]
    rfl
  · rw [if_pos (Decidable.not_not.mp (mt Commits.ofAsset_eq_nil_iff.mpr hseen))]
    rfl

/-! ## The whole walk -/

/-- A walk ends in its outcome, and records only sound snapshots on the way. -/
theorem ensures_run (hw : w.Regular W) :
    Dialogue.Ensures W.contract (· = w.outcome W) w.run.run := by
  rw [Attempt.ensures_run_eq, run, Attempt.ensures_bind]
  have hstart : Tracks w W ((w.stream W).take ((1 - 1) * w.config.transferPageSize))
      ((w.stream W).drop ((1 - 1) * w.config.transferPageSize)) (.empty w.account) := by
    rw [Nat.sub_self, Nat.zero_mul]
    exact tracks_empty
  refine (ensures_replayPages hw 1 _ Nat.one_pos hstart).mono (fun book hbook => ?_)
    fun e he => he
  have hopen : ∀ e ∈ book.assets, Follows w W e.1 (w.stream W) [] e.2 := by
    intro e he
    have hstanding := hbook.standing e.1
    have hfind : book.find? e.1 = some e.2 := hbook.sorted.find?_of_mem he
    rw [hfind] at hstanding
    generalize book.isSkipped e.1 = skipped at hstanding
    rcases hstanding with _ | _ | ⟨-, hst⟩
    exact hst
  rw [Attempt.ensures_bind]
  refine (ensures_finish hw book.assets hopen).mono (fun assets hassets => ?_) fun e he => he.elim
  show w.outcome W = .ok ⟨w.account, assets⟩
  rw [outcome_of_rates hbook.rates, hassets, choose_assets hbook]

end Walk

end Custodian
