import Custodian.Proofs.Replay.Standing

/-!
# What the replay of a transfer touches

The replay of a transfer asks only about the asset of the transfer, whatever it is answered,
and leaves every other asset of the book as it is (`Walk.touches_replay`). It never records a
snapshot at or before the start of the window, because no open replay stands before it
(`Walk.InOrder`). Neither the order of the stamps nor the content of any store matters here.
-/

namespace Custodian

/-! ## Books -/

namespace AccountBook

/-- Two books say the same of an asset. -/
structure AgreeOn (asset : String) (b b' : AccountBook) : Prop where
  state : b.find? asset = b'.find? asset
  skipped : b.isSkipped asset = b'.isSkipped asset

/-- The second book differs from the first one at most in one asset. -/
def DiffersOnlyAt (asset : String) (b b' : AccountBook) : Prop :=
  ∀ other, other ≠ asset → AgreeOn other b b'

variable {asset : String} {b b' : AccountBook}

theorem differsOnlyAt_refl (asset : String) (b : AccountBook) : b.DiffersOnlyAt asset b :=
  fun _ _ => ⟨rfl, rfl⟩

namespace DiffersOnlyAt

theorem insert (h : b.DiffersOnlyAt asset b') (st : AssetState) :
    b.DiffersOnlyAt asset (b'.insert asset st) := by
  intro other hne
  have hother := h other hne
  exact ⟨by simpa [hne] using hother.state, by simpa using hother.skipped⟩

theorem modify (h : b.DiffersOnlyAt asset b') (f : AssetState → AssetState) :
    b.DiffersOnlyAt asset (b'.modify asset f) := by
  intro other hne
  have hother := h other hne
  exact ⟨by simpa [hne] using hother.state, by simpa using hother.skipped⟩

theorem skip (h : b.DiffersOnlyAt asset b') : b.DiffersOnlyAt asset (b'.skip asset) := by
  intro other hne
  have hother := h other hne
  exact ⟨by simpa [hne] using hother.state, by simpa [hne] using hother.skipped⟩

end DiffersOnlyAt

end AccountBook

namespace Walk

variable {w : Walk} {book b : AccountBook} {asset : String} {t : Transfer}

/-- The entries of a book are sorted, and no open replay stands before the start of the
window. -/
structure InOrder (w : Walk) (book : AccountBook) : Prop where
  sorted : book.assets.Sorted
  reached : ∀ asset st, book.find? asset = some st → w.window.start ≤ st.context.control

theorem inOrder_empty : w.InOrder (.empty w.account) :=
  ⟨Keyed.sorted_nil, fun _ _ h => (nomatch h)⟩

namespace InOrder

theorem insert (h : w.InOrder book) {st : AssetState}
    (hst : w.window.start ≤ st.context.control) : w.InOrder (book.insert asset st) := by
  refine ⟨h.sorted.insert _ _, fun other st' hfind => ?_⟩
  rw [AccountBook.find?_insert] at hfind
  split at hfind
  · cases hfind
    exact hst
  · exact h.reached other st' hfind

theorem modify (h : w.InOrder book) {f : AssetState → AssetState}
    (hf : ∀ st, book.find? asset = some st → w.window.start ≤ (f st).context.control) :
    w.InOrder (book.modify asset f) := by
  refine ⟨h.sorted.modify _ _, fun other st' hfind => ?_⟩
  rw [AccountBook.find?_modify] at hfind
  split at hfind
  · obtain ⟨st, hst, rfl⟩ := Option.map_eq_some_iff.mp hfind
    exact hf st hst
  · exact h.reached other st' hfind

theorem skip (h : w.InOrder book) : w.InOrder (book.skip asset) := by
  refine ⟨h.sorted.erase _, fun other st' hfind => ?_⟩
  rw [AccountBook.find?_skip] at hfind
  split at hfind
  · cases hfind
  · exact h.reached other st' hfind

end InOrder

/-! ## Questions about one asset -/

/-- The questions of a walk that are about one asset. -/
def Concerns (w : Walk) (asset : String) : Question → Prop
  | .rate scope asset' => scope = w.scope ∧ asset' = asset
  | .snapshot account asset' time =>
    account = w.account ∧ asset' = asset ∧ time = w.window.start
  | .append s => s.account = w.account ∧ s.asset = asset ∧ w.window.start < s.control
  | .note _ => True
  | _ => False

/-- Only questions about one asset are asked. Any answer may be given. -/
def about (w : Walk) (asset : String) : Contract := ⟨w.Concerns asset, fun _ _ => True⟩

/-- The book is in order, and at most one asset of it has changed. -/
def Touched (w : Walk) (asset : String) (before book : AccountBook) : Prop :=
  w.InOrder book ∧ before.DiffersOnlyAt asset book

/-! ## Parts of a replay -/

/-- A snapshot is written without any other question, whatever becomes of it. -/
theorem asks_checkpoint {C : Contract} {settled : Context} (last : Option Int64)
    (hwrite : C.asked (.append (settled.snapshot w.account asset)))
    (hnote : ∀ notice, C.asked (.note notice)) :
    (w.checkpoint asset settled last).Ensures C fun _ => True := by
  unfold checkpoint
  split
  · rw [Dialogue.ensures_bind, Dialogue.ensures_question]
    refine ⟨hwrite, fun answer _ => ?_⟩
    rcases answer with e | ⟨⟩
    · exact ⟨hnote _, fun _ _ => trivial⟩
    · exact trivial
  · exact trivial

/-- Every replay starts at the start of the window, with the fraction found, whatever is known of
snapshots. -/
theorem asks_seed {C : Contract} (fraction : Decimal)
    (hlookup : C.asked (.snapshot w.account asset w.window.start))
    (hnote : ∀ notice, C.asked (.note notice)) :
    (w.policy.seed w.account asset w.window fraction).Ensures C
      fun st => st.context.control = w.window.start ∧ st.fraction = fraction := by
  unfold SnapshotPolicy.seed
  split
  · rw [Dialogue.ensures_bind, Dialogue.ensures_question]
    refine ⟨hlookup, fun answer _ => ?_⟩
    rcases answer with e | _ | snapshot
    · exact ⟨hnote _, fun _ _ => ⟨rfl, rfl⟩⟩
    · exact ⟨rfl, rfl⟩
    · exact ⟨rfl, rfl⟩
  · exact ⟨rfl, rfl⟩

theorem touches_checkpoint {settled : Context} (last : Option Int64)
    (h : w.window.start < settled.control) :
    (w.checkpoint asset settled last).Ensures (w.about asset) fun _ => True :=
  asks_checkpoint last ⟨rfl, rfl, h⟩ fun _ => trivial

/-- Every replay starts at the start of the window. -/
theorem touches_seed (fraction : Decimal) :
    (w.policy.seed w.account asset w.window fraction).Ensures (w.about asset)
      fun st => st.context.control = w.window.start := by
  refine Dialogue.Ensures.mono (asks_seed fraction ?_ fun _ => trivial) fun st hst => hst.1
  exact ⟨rfl, rfl, rfl⟩

theorem touches_omitOrFail (e : Error) :
    (w.omitOrFail book asset e).Ensures (w.about asset) (· = book.skip asset)
      fun _ => True := by
  unfold omitOrFail
  split
  · rw [Attempt.ensures_lift]
    exact ⟨trivial, fun _ _ => rfl⟩
  · exact trivial

theorem touches_openAsset (h : w.InOrder b) (hb : book.DiffersOnlyAt asset b) :
    (w.openAsset b asset).Ensures (w.about asset) (w.Touched asset book) fun _ => True := by
  unfold openAsset
  rw [Attempt.ensures_bind, Attempt.ensures_question]
  refine ⟨⟨rfl, rfl⟩, fun answer _ => ?_⟩
  rcases answer with e | fraction
  · refine (touches_omitOrFail e).mono (fun b' hb' => ?_) fun _ _ => trivial
    rw [hb']
    exact ⟨h.skip, hb.skip⟩
  · show Attempt.Ensures _ _ _ (ExceptT.lift _ >>= _)
    rw [Attempt.ensures_bind, Attempt.ensures_lift]
    refine (touches_seed fraction).mono fun st hst => ?_
    exact ⟨h.insert (Int64.le_of_eq hst.symm), hb.insert st⟩

/-- What settling and moving the balance do to the control point. -/
theorem control_of_settleAndApply {st : AssetState} {occurredAt : Int64} {delta : Decimal}
    {settled applied : Context}
    (h : w.settleAndApply st occurredAt delta = .ok (settled, applied)) :
    st.context.control ≤ settled.control ∧ applied.control = settled.control := by
  unfold settleAndApply at h
  obtain ⟨settled', hsettled, h⟩ := except_bind_eq_ok_iff.mp h
  obtain ⟨applied', happlied, h⟩ := except_bind_eq_ok_iff.mp h
  cases h
  have hframe := Context.frame_of_settle hsettled
  have happly := (Context.applyDelta_eq_ok happlied).2
  exact ⟨hframe.2.1, by rw [happly]⟩

theorem touches_replayOpen (h : w.InOrder b) (hb : book.DiffersOnlyAt t.asset b)
    {st : AssetState} (hfind : b.find? t.asset = some st) :
    (w.replayOpen b st t).Ensures (w.about t.asset) (w.Touched t.asset book)
      fun _ => True := by
  unfold replayOpen
  split
  · exact ⟨h, hb⟩
  rcases hsettle : w.settleAndApply st t.occurredAt (t.deltaFor w.account) with
    e | ⟨settled, applied⟩
  · refine (touches_omitOrFail e).mono (fun b' hb' => ?_) fun _ _ => trivial
    rw [hb']
    exact ⟨h.skip, hb.skip⟩
  · obtain ⟨hforward, hcontrol⟩ := control_of_settleAndApply hsettle
    have hreached := h.reached _ _ hfind
    have happlied : w.window.start ≤ applied.control :=
      hcontrol ▸ Int64.le_trans hreached hforward
    have hmoved : w.InOrder (b.modify t.asset fun s => { s with context := applied }) :=
      h.modify fun _ _ => happlied
    show Attempt.Ensures _ _ _ (ite _ _ _)
    split
    · rename_i hlt
      rw [Attempt.ensures_bind, Attempt.ensures_lift]
      have hdue : w.window.start < settled.control := Int64.lt_of_le_of_lt hreached hlt
      refine (touches_checkpoint _ hdue).mono fun written _ => ?_
      rcases written with _ | control
      · exact ⟨hmoved, hb.modify _⟩
      · exact ⟨hmoved.modify fun st' hst' => hmoved.reached _ st' hst', (hb.modify _).modify _⟩
    · exact ⟨hmoved, hb.modify _⟩

/-! ## One transfer -/

/-- Replays a transfer if its asset has been opened. -/
def resume (w : Walk) (t : Transfer) (book : AccountBook) : Attempt AccountBook :=
  (book.find? t.asset).elim (return book) fun state => w.replayOpen book state t

theorem replay_of_skipped (hskipped : book.isSkipped t.asset = true) :
    w.replay book t = return book := by
  unfold replay
  rw [if_pos hskipped]

theorem replay_of_open {st : AssetState} (hkept : book.isSkipped t.asset = false)
    (hfind : book.find? t.asset = some st) : w.replay book t = w.replayOpen book st t := by
  unfold replay
  rw [hkept, if_neg Bool.false_ne_true, hfind]
  simp only [pure_bind, hfind]

theorem replay_of_new (hkept : book.isSkipped t.asset = false)
    (hfind : book.find? t.asset = none) :
    w.replay book t = w.openAsset book t.asset >>= w.resume t := by
  unfold replay
  rw [hkept, if_neg Bool.false_ne_true, hfind]
  refine bind_congr fun b => ?_
  unfold resume
  dsimp only
  cases b.find? t.asset <;> rfl

/-- A transfer is replayed by questions about its asset alone, and no other asset changes. -/
theorem touches_replay (h : w.InOrder book) :
    (w.replay book t).Ensures (w.about t.asset) (w.Touched t.asset book) fun _ => True := by
  have hself := book.differsOnlyAt_refl t.asset
  rcases hskipped : book.isSkipped t.asset with _ | _
  · rcases hfind : book.find? t.asset with _ | st
    · rw [replay_of_new hskipped hfind, Attempt.ensures_bind]
      refine (touches_openAsset h hself).mono (fun b hb => ?_) fun _ _ => trivial
      unfold resume
      rcases hopened : b.find? t.asset with _ | st
      · exact hb
      · exact touches_replayOpen hb.1 hb.2 hopened
    · rw [replay_of_open hskipped hfind]
      exact touches_replayOpen h hself hfind
  · rw [replay_of_skipped hskipped]
    exact ⟨h, hself⟩

/-! ## The end of the window -/

theorem touches_finishAsset (hwindow : w.window.start < w.window.stop) (st : AssetState) :
    (w.finishAsset asset st).Ensures (w.about asset) (fun _ => True) fun _ => True := by
  unfold finishAsset
  rcases hsettle : st.context.settle w.window w.window.stop st.fraction w.config.custodyPeriod with
    e | settled
  · dsimp only
    rcases e.assetCause? with _ | cause
    · exact trivial
    · exact ⟨trivial, fun _ _ => trivial⟩
  · have hreached := (Context.frame_of_settle hsettle).2.2.1
    have hdue : w.window.start < settled.control := Int64.lt_of_lt_of_le hwindow hreached
    show Attempt.Ensures _ _ _ (ExceptT.lift _ >>= _)
    rw [Attempt.ensures_bind, Attempt.ensures_lift]
    exact (touches_checkpoint _ hdue).mono fun _ _ => trivial

end Walk

end Custodian
