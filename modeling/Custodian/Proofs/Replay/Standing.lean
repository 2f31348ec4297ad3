import Custodian.Proofs.Replay.World

/-!
# Where the replay of each asset stands

While an account is walked, its stream is split into what is `done` and the `rest`. For each
asset one of three things holds (`Standing`): it has not been met; it is left out, and then
the outcome has no totals for it; or its replay is open and `Follows` the stream.

A replay that a snapshot opened is ahead of the stream: the snapshot's balance holds transfers
that the walk has yet to pass over. So an open replay is compared with what is done *and* what
is still to come from before the snapshot. In a ledger whose stamps ascend the latter is gone
as soon as the first transfer is not passed over, from where on both replays agree step by
step.
-/

namespace Custodian

/-! ## What a walk takes for granted -/

/-- The settings and the window are valid, snapshots are used only where there are some and the
window lies within their horizon, the stamps of the ledger ascend, and the pages of the stream
can be counted in 32 bits. -/
structure Walk.Regular (w : Walk) (W : World) : Prop where
  window : w.window.Valid
  settings : w.config.check = .ok ()
  snapshots : w.config.snapshotsEnabled = true → W.Reaches w.window.stop
  ordered : W.transfers.TimeOrdered
  fits : (w.stream W).length ≤ w.config.transferPageSize * maxPage

namespace Config

/-- Settings that pass the check are within their bounds. -/
theorem bounds_of_check {c : Config} (h : c.check = .ok ()) :
    0 < c.custodyPeriod ∧ 0 ≤ c.stalenessMultiplier ∧ 0 < c.transferPageSize ∧
      0 < c.accountPageSize ∧ 0 < c.maxConcurrentAccounts := by
  unfold check at h
  split at h
  · cases h
  rename_i hperiod
  split at h
  · cases h
  rename_i hmultiplier
  split at h
  · cases h
  rename_i hsizes
  split at h
  · cases h
  rename_i hwidth
  exact ⟨Int64.not_le.mp hperiod, Int64.not_lt.mp hmultiplier, by omega, by omega, by omega⟩

theorem custodyPeriod_pos {c : Config} (h : c.check = .ok ()) : 0 < c.custodyPeriod :=
  (bounds_of_check h).1

theorem transferPageSize_pos {c : Config} (h : c.check = .ok ()) : 0 < c.transferPageSize :=
  (bounds_of_check h).2.2.1

theorem maxConcurrentAccounts_pos {c : Config} (h : c.check = .ok ()) :
    0 < c.maxConcurrentAccounts := (bounds_of_check h).2.2.2.2

end Config

/-! ## Books -/

namespace AccountBook

variable (b : AccountBook) (asset other : String) (st : AssetState) (f : AssetState → AssetState)

@[simp] theorem find?_insert :
    (b.insert asset st).find? other = if other = asset then some st else b.find? other :=
  Keyed.find?_insert ..

@[simp] theorem find?_modify :
    (b.modify asset f).find? other =
      if other = asset then (b.find? asset).map f else b.find? other := Keyed.find?_modify ..

@[simp] theorem find?_skip :
    (b.skip asset).find? other = if other = asset then none else b.find? other :=
  Keyed.find?_erase ..

@[simp] theorem isSkipped_insert : (b.insert asset st).isSkipped other = b.isSkipped other := rfl

@[simp] theorem isSkipped_modify : (b.modify asset f).isSkipped other = b.isSkipped other := rfl

@[simp] theorem isSkipped_skip :
    (b.skip asset).isSkipped other = if other = asset then true else b.isSkipped other := by
  show ((b.skipped.insert asset ()).find? other).isSome = _
  rw [Keyed.find?_insert]
  by_cases h : other = asset
  · rw [if_pos h, if_pos h, Option.isSome_some]
  · rw [if_neg h, if_neg h]
    rfl

end AccountBook

/-! ## Open replays -/

namespace AssetState

variable {st : AssetState} {ts : Commits} {t : Transfer}

/-- The transfers that are in the starting balance already. -/
def folded (st : AssetState) (ts : Commits) : Commits :=
  ts.filter fun t => st.isFolded t.occurredAt

theorem folded_cons :
    st.folded (t :: ts) = if st.isFolded t.occurredAt then t :: st.folded ts else st.folded ts :=
  List.filter_cons

/-- Behind a transfer that is not passed over none is. -/
theorem folded_eq_nil (hnot : st.isFolded t.occurredAt = false)
    (hafter : ∀ t' ∈ ts, t.occurredAt ≤ t'.occurredAt) : st.folded ts = [] := by
  unfold folded
  rw [List.filter_eq_nil_iff]
  intro t' ht' hfolded
  have hle := hafter t' ht'
  unfold isFolded at hnot hfolded
  rcases hseed : st.replayFrom with _ | seed
  · rw [hseed] at hfolded
    cases hfolded
  · rw [hseed] at hnot hfolded
    simp only [decide_eq_true_eq, decide_eq_false_iff_not] at hnot hfolded
    exact hnot (Int64.lt_of_le_of_lt hle hfolded)

end AssetState

/-- An open replay has the context of all transfers so far and of those still to come that its
snapshot has in the balance already. -/
structure Follows (w : Walk) (W : World) (asset : String) (done rest : Commits)
    (st : AssetState) : Prop where
  rate : W.rate w.scope asset = .ok st.fraction
  context :
    w.accrual st.fraction (done.ofAsset asset ++ st.folded (rest.ofAsset asset)) = .ok st.context

namespace Follows

variable {w : Walk} {W : World} {asset : String} {done rest : Commits} {st st' : AssetState}
  {t : Transfer}

/-- A transfer that the snapshot has in its balance is passed over. -/
theorem fold (h : Follows w W t.asset done (t :: rest) st)
    (hfolded : st.isFolded t.occurredAt = true) : Follows w W t.asset (done ++ [t]) rest st := by
  refine ⟨h.rate, ?_⟩
  have hcontext := h.context
  rw [Commits.ofAsset_cons, if_pos rfl, AssetState.folded_cons, if_pos hfolded] at hcontext
  rw [Commits.ofAsset_append, Commits.ofAsset_cons, if_pos rfl, Commits.ofAsset_nil,
    List.append_assoc, List.singleton_append]
  exact hcontext

/-- The replay is not ahead of the stream any more once a transfer is not passed over. -/
theorem accrual_done (h : Follows w W t.asset done (t :: rest) st)
    (hnot : st.isFolded t.occurredAt = false)
    (hafter : ∀ t' ∈ rest, t.occurredAt ≤ t'.occurredAt) :
    w.accrual st.fraction (done.ofAsset t.asset) = .ok st.context := by
  have hcontext := h.context
  rw [Commits.ofAsset_cons, if_pos rfl, AssetState.folded_cons,
    if_neg (by rw [hnot]; decide), AssetState.folded_eq_nil hnot, List.append_nil] at hcontext
  · exact hcontext
  · intro t' ht'
    exact hafter t' (Commits.mem_ofAsset.mp ht').1

/-- A transfer that is not passed over is one more step. -/
theorem advance (h : Follows w W t.asset done (t :: rest) st)
    (hnot : st.isFolded t.occurredAt = false)
    (hafter : ∀ t' ∈ rest, t.occurredAt ≤ t'.occurredAt)
    (hstep : w.step st.fraction st.context t = .ok st'.context)
    (hfraction : st'.fraction = st.fraction) (hseed : st'.replayFrom = st.replayFrom) :
    Follows w W t.asset (done ++ [t]) rest st' := by
  have hnot' : st'.isFolded t.occurredAt = false := by
    unfold AssetState.isFolded at hnot ⊢
    rw [hseed]
    exact hnot
  refine ⟨hfraction ▸ h.rate, ?_⟩
  rw [AssetState.folded_eq_nil hnot' fun t' ht' => hafter t' (Commits.mem_ofAsset.mp ht').1,
    List.append_nil, Commits.ofAsset_append, Commits.ofAsset_cons, if_pos rfl,
    Commits.ofAsset_nil, Walk.accrual_concat, hfraction, h.accrual_done hnot hafter]
  exact hstep

/-- Without a snapshot a replay starts with nothing. -/
theorem genesis {fraction : Decimal} (hrate : W.rate w.scope asset = .ok fraction)
    (hfirst : done.ofAsset asset = []) :
    Follows w W asset done rest (.genesis w.window fraction) := by
  refine ⟨hrate, ?_⟩
  have hnil : (AssetState.genesis w.window fraction).folded (rest.ofAsset asset) = [] :=
    List.filter_eq_nil_iff.mpr fun _ _ => Bool.false_ne_true
  rw [hnil, hfirst]
  rfl

/-- A sound snapshot from before the window opens a replay that follows the stream. -/
theorem seeded {fraction : Decimal} {snapshot : Snapshot} (hwindow : w.window.Valid)
    (hrate : W.rate w.scope asset = .ok fraction) (hsplit : done ++ rest = w.stream W)
    (hfirst : done.ofAsset asset = []) (haccount : snapshot.account = w.account)
    (hasset : snapshot.asset = asset) (hcontrol : snapshot.control ≤ w.window.start)
    (hsound : snapshot.Sound W.transfers) :
    Follows w W asset done rest (.seeded snapshot w.window fraction) := by
  have hstop : snapshot.control ≤ w.window.stop :=
    Int64.le_trans hcontrol (Int64.le_of_lt hwindow.1)
  have hfolded :
      (AssetState.seeded snapshot w.window fraction).folded (rest.ofAsset asset) =
        (W.transfers.ofAccount w.account snapshot.control).ofAsset asset := by
    rw [← Commits.before_ofAccount hstop, ← Commits.before_ofAsset]
    show _ = ((w.stream W).ofAsset asset).before _
    rw [← hsplit, Commits.ofAsset_append, hfirst, List.nil_append]
    rfl
  refine ⟨hrate, ?_⟩
  rw [hfolded, hfirst, List.nil_append]
  refine Walk.accrual_of_before (fun t ht => ?_) ?_
  · have hlt := (Commits.mem_ofAccount.mp (Commits.mem_ofAsset.mp ht).1).2.2.2
    exact Int64.le_trans (Int64.le_of_lt hlt) hcontrol
  · have h := hsound
    unfold Snapshot.Sound at h
    rwa [haccount, hasset] at h

end Follows

/-! ## All assets -/

/-- Where the replay of an asset stands: its state, and whether it is left out. -/
inductive Standing (w : Walk) (W : World) (asset : String) (done rest : Commits) :
    Option AssetState → Bool → Prop
  | unseen (h : done.ofAsset asset = []) : Standing w W asset done rest none false
  | omitted (hseen : done.ofAsset asset ≠ []) (h : w.custodyOf W asset = none) :
      Standing w W asset done rest none true
  | running {st : AssetState} (hseen : done.ofAsset asset ≠ [])
      (h : Follows w W asset done rest st) : Standing w W asset done rest (some st) false

/-- Passing a transfer of another asset changes nothing. -/
theorem Standing.other {w : Walk} {W : World} {asset : String} {done rest : Commits}
    {t : Transfer} {state : Option AssetState} {skipped : Bool} (hne : t.asset ≠ asset)
    (h : Standing w W asset done (t :: rest) state skipped) :
    Standing w W asset (done ++ [t]) rest state skipped := by
  have hdone : (done ++ [t]).ofAsset asset = done.ofAsset asset := by
    rw [Commits.ofAsset_append, Commits.ofAsset_cons, if_neg hne, Commits.ofAsset_nil,
      List.append_nil]
  rcases h with h | ⟨hseen, h⟩ | ⟨hseen, h⟩
  · exact .unseen (hdone.trans h)
  · exact .omitted (hdone ▸ hseen) h
  · refine .running (hdone ▸ hseen) ⟨h.rate, ?_⟩
    have hcontext := h.context
    rw [Commits.ofAsset_cons, if_neg hne] at hcontext
    rw [hdone]
    exact hcontext

/-- The book is right about every asset but one. -/
structure TracksBut (w : Walk) (W : World) (asset : String) (done rest : Commits)
    (book : AccountBook) : Prop where
  split : done ++ rest = w.stream W
  sorted : book.assets.Sorted
  rates : ∀ t ∈ done, w.rateFailure? W t.asset = none
  standing : ∀ other, other ≠ asset →
    Standing w W other done rest (book.find? other) (book.isSkipped other)

/-- The book is right about every asset. -/
structure Tracks (w : Walk) (W : World) (done rest : Commits) (book : AccountBook) : Prop where
  split : done ++ rest = w.stream W
  sorted : book.assets.Sorted
  rates : ∀ t ∈ done, w.rateFailure? W t.asset = none
  standing : ∀ asset, Standing w W asset done rest (book.find? asset) (book.isSkipped asset)

variable {w : Walk} {W : World} {asset : String} {done rest : Commits} {book : AccountBook}
  {t : Transfer}

theorem Tracks.but (h : Tracks w W done rest book) (asset : String) :
    TracksBut w W asset done rest book :=
  ⟨h.split, h.sorted, h.rates, fun other _ => h.standing other⟩

/-- At the start no asset has been met. -/
theorem tracks_empty : Tracks w W [] (w.stream W) (.empty w.account) :=
  ⟨rfl, Keyed.sorted_nil, fun _ h => (nomatch h), fun _ => .unseen rfl⟩

namespace TracksBut

theorem insert (h : TracksBut w W asset done rest book) (st : AssetState) :
    TracksBut w W asset done rest (book.insert asset st) := by
  refine ⟨h.split, h.sorted.insert _ _, h.rates, fun other hne => ?_⟩
  rw [AccountBook.find?_insert, if_neg hne, AccountBook.isSkipped_insert]
  exact h.standing other hne

theorem modify (h : TracksBut w W asset done rest book) (f : AssetState → AssetState) :
    TracksBut w W asset done rest (book.modify asset f) := by
  refine ⟨h.split, h.sorted.modify _ _, h.rates, fun other hne => ?_⟩
  rw [AccountBook.find?_modify, if_neg hne, AccountBook.isSkipped_modify]
  exact h.standing other hne

theorem skip (h : TracksBut w W asset done rest book) :
    TracksBut w W asset done rest (book.skip asset) := by
  refine ⟨h.split, h.sorted.erase _, h.rates, fun other hne => ?_⟩
  rw [AccountBook.find?_skip, if_neg hne, AccountBook.isSkipped_skip, if_neg hne]
  exact h.standing other hne

/-- Once the book is right about the asset of a transfer too, the transfer is done. -/
theorem next (h : TracksBut w W t.asset done (t :: rest) book)
    (hrate : w.rateFailure? W t.asset = none)
    (hstanding : Standing w W t.asset (done ++ [t]) rest (book.find? t.asset)
      (book.isSkipped t.asset)) : Tracks w W (done ++ [t]) rest book := by
  refine ⟨?_, h.sorted, fun t' ht' => ?_, fun asset => ?_⟩
  · rw [List.append_assoc, List.singleton_append]
    exact h.split
  · rcases List.mem_append.mp ht' with ht' | ht'
    · exact h.rates t' ht'
    · rw [List.mem_singleton.mp ht']
      exact hrate
  · by_cases hne : asset = t.asset
    · rw [hne]
      exact hstanding
    · exact (h.standing asset hne).other (Ne.symm hne)

end TracksBut

/-- The asset of a transfer that is done has been met. -/
theorem ofAsset_concat_ne_nil : (done ++ [t]).ofAsset t.asset ≠ [] := by
  rw [Commits.ofAsset_append, Commits.ofAsset_cons, if_pos rfl]
  exact List.append_ne_nil_of_right_ne_nil _ (List.cons_ne_nil _ _)

end Custodian
