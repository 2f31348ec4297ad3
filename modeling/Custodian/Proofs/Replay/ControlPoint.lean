import Custodian.Proofs.Accrual.Overflow
import Custodian.Proofs.Replay.Footprint
import Mathlib.Logic.Relation

/-!
# Where control points go

The book of a walk changes by four kinds of moves (`Walk.Move`): an asset that is neither open nor
left out is opened at the start of the window, one is settled up to a transfer that counts and its
balance moved, one is left out, or the last snapshot written of it is kept in mind. Whatever the
stores answer, a walk moves in no other way (`Walk.moves_replay`). So control points start at the
start of the window and never pass its end (`Walk.Within`). An asset that is left out is never
opened again (`Walk.Moved.skipped`), so that from any book of a walk to any later one no control
point goes back (`Walk.Moved.control_le`). At the end of the walk each reported asset stands at the
end of the window (`Walk.Closes`). The order of the stamps plays no part: a transfer stamped before
the control point settles nothing.

Inside the window settlements fail for reasons of their asset only. What ends a walk is therefore
an error of the mirror or of the directory (`Raised.Fails`).
-/

namespace Custodian

/-- An error that concerns more than one asset has no cause to be noted. -/
theorem Error.assetScoped_of_assetCause? {e : Error} (h : e.assetCause? = none) :
    e.assetScoped = false := by
  cases e with
  | custody cause =>
    by_contra hscoped
    rw [Bool.not_eq_false] at hscoped
    have hcause : (Error.custody cause).assetCause? = some cause := if_pos hscoped
    rw [hcause] at h
    cases h
  | _ => rfl

/-! ## What may go wrong in the stores -/

/-- The errors that the mirror of the ledger and the directory of rates may answer with. -/
structure Raised where
  mirror : Error → Prop
  directory : Error → Prop

/-- Walks ask neither for accounts nor whether recordings wait. -/
def Walk.Asks : Question → Prop
  | .accounts _ _ => False
  | .writesWait => False
  | _ => True

namespace Raised

/-- Answers to a question. Rates that are given out are usable; a rate that is not may be withheld
for a reason of its asset, or because the directory failed. Anything may become of snapshots. -/
def Allowed (R : Raised) : (q : Question) → q.Answer → Prop
  | .transfers _ _ _ => fun answer => ∀ e, answer = .error e → R.mirror e
  | .accounts _ _ => fun answer => ∀ e, answer = .error e → R.mirror e
  | .rate _ _ => fun answer =>
    (∀ fraction, answer = .ok fraction → checkFraction fraction = .ok ()) ∧
      ∀ e, answer = .error e → e.assetScoped = true ∨ R.directory e
  | .snapshot _ _ _ => fun _ => True
  | .append _ => fun _ => True
  | .writesWait => fun _ => True
  | .note _ => fun _ => True

/-- What a walk may ask, and how it may be answered. -/
def contract (R : Raised) : Contract := ⟨Walk.Asks, R.Allowed⟩

/-- What a walk may fail with: an error of the mirror, or one of the directory that concerns more
than one asset. -/
def Fails (R : Raised) (e : Error) : Prop :=
  (∃ raised, R.mirror raised ∧ e = ledgerError raised) ∨ R.directory e ∧ e.assetScoped = false

end Raised

namespace Walk

variable {w : Walk} {R : Raised} {book book' : AccountBook} {asset : String} {st : AssetState}
  {t : Transfer}

/-! ## Moves -/

/-- How the book of a walk changes. -/
inductive Move (w : Walk) : AccountBook → AccountBook → Prop
  | opened {book : AccountBook} (asset : String) (st : AssetState)
      (new : book.find? asset = none) (kept : book.isSkipped asset = false)
      (starts : st.context.control = w.window.start)
      (usable : checkFraction st.fraction = .ok ()) : Move w book (book.insert asset st)
  | settled {book : AccountBook} {asset : String} {st : AssetState} {occurredAt : Int64}
      {delta : Decimal} {settled applied : Context} (found : book.find? asset = some st)
      (counts : occurredAt < w.window.stop)
      (settles : w.settleAndApply st occurredAt delta = .ok (settled, applied)) :
      Move w book (book.modify asset fun s => { s with context := applied })
  | omitted {book : AccountBook} (asset : String) : Move w book (book.skip asset)
  | recorded {book : AccountBook} (asset : String) (control : Int64) :
      Move w book (book.modify asset fun s => { s with lastSnapshotAt := some control })

/-- Any number of moves. -/
abbrev Moved (w : Walk) : AccountBook → AccountBook → Prop := Relation.ReflTransGen w.Move

/-- The books that moves reach from the empty one. -/
abbrev Visits (w : Walk) (book : AccountBook) : Prop := w.Moved (.empty w.account) book

/-- Control points lie in the window, and fractions are usable. -/
structure Within (w : Walk) (book : AccountBook) : Prop where
  inOrder : w.InOrder book
  reaches : ∀ asset st, book.find? asset = some st → st.context.control ≤ w.window.stop
  usable : ∀ asset st, book.find? asset = some st → checkFraction st.fraction = .ok ()

theorem within_empty : w.Within (.empty w.account) :=
  ⟨inOrder_empty, fun _ _ h => (nomatch h), fun _ _ h => (nomatch h)⟩

/-- Settling up to an instant before the end moves the control point towards the end, if at all. -/
theorem control_le_of_settleAndApply {occurredAt : Int64} {delta : Decimal}
    {settled applied : Context} (hreaches : st.context.control ≤ w.window.stop)
    (hcounts : occurredAt < w.window.stop)
    (h : w.settleAndApply st occurredAt delta = .ok (settled, applied)) :
    applied.control ≤ w.window.stop := by
  unfold settleAndApply at h
  obtain ⟨settled', hsettled, h⟩ := except_bind_eq_ok_iff.mp h
  obtain ⟨applied', happlied, h⟩ := except_bind_eq_ok_iff.mp h
  cases h
  obtain ⟨-, hforward, -, hmoved⟩ := Context.frame_of_settle hsettled
  rw [(Context.applyDelta_eq_ok happlied).2]
  show settled.control ≤ w.window.stop
  rcases Int64.lt_or_eq_of_le hforward with hlt | heq
  · rw [hmoved hlt]
    exact Int64.le_of_lt hcounts
  · rw [← heq]
    exact hreaches

/-- A change of a state leaves a book within the window if it leaves that state within it. -/
theorem Within.modify (h : w.Within book) {f : AssetState → AssetState}
    (hf : ∀ st, book.find? asset = some st → w.window.start ≤ (f st).context.control ∧
      (f st).context.control ≤ w.window.stop ∧ (f st).fraction = st.fraction) :
    w.Within (book.modify asset f) := by
  have hfound : ∀ other st', (book.modify asset f).find? other = some st' →
      book.find? other = some st' ∨
        ∃ st, book.find? asset = some st ∧ st' = f st := by
    intro other st' hfind
    rw [AccountBook.find?_modify] at hfind
    split at hfind
    · obtain ⟨st, hst, rfl⟩ := Option.map_eq_some_iff.mp hfind
      exact .inr ⟨st, hst, rfl⟩
    · exact .inl hfind
  refine ⟨h.inOrder.modify fun st hst => (hf st hst).1, fun other st' hfind => ?_,
    fun other st' hfind => ?_⟩
  · rcases hfound other st' hfind with hsame | ⟨st, hst, rfl⟩
    · exact h.reaches other st' hsame
    · exact (hf st hst).2.1
  · rcases hfound other st' hfind with hsame | ⟨st, hst, rfl⟩
    · exact h.usable other st' hsame
    · rw [(hf st hst).2.2]
      exact h.usable asset st hst

/-- A move leaves control points in the window. -/
theorem Move.within (hwindow : w.window.Valid) (h : w.Move book book') (hbook : w.Within book) :
    w.Within book' := by
  cases h with
  | opened asset st new kept starts usable =>
    have hstarts : w.window.start ≤ st.context.control := Int64.le_of_eq starts.symm
    refine ⟨hbook.inOrder.insert hstarts, fun other st' hfind => ?_, fun other st' hfind => ?_⟩
    · rw [AccountBook.find?_insert] at hfind
      split at hfind
      · cases hfind
        rw [starts]
        exact Int64.le_of_lt hwindow.1
      · exact hbook.reaches other st' hfind
    · rw [AccountBook.find?_insert] at hfind
      split at hfind
      · cases hfind
        exact usable
      · exact hbook.usable other st' hfind
  | @settled asset st _ _ _ _ found counts settles =>
    apply hbook.modify
    intro st' hst'
    rw [found] at hst'
    cases hst'
    obtain ⟨hforward, hcontrol⟩ := control_of_settleAndApply settles
    refine ⟨?_, control_le_of_settleAndApply (hbook.reaches _ _ found) counts settles, rfl⟩
    show w.window.start ≤ _
    rw [hcontrol]
    exact Int64.le_trans (hbook.inOrder.reached _ _ found) hforward
  | omitted asset =>
    refine ⟨hbook.inOrder.skip, fun other st' hfind => ?_, fun other st' hfind => ?_⟩
    · rw [AccountBook.find?_skip] at hfind
      split at hfind
      · cases hfind
      · exact hbook.reaches other st' hfind
    · rw [AccountBook.find?_skip] at hfind
      split at hfind
      · cases hfind
      · exact hbook.usable other st' hfind
  | recorded asset control =>
    apply hbook.modify
    intro st hst
    exact ⟨hbook.inOrder.reached asset st hst, hbook.reaches asset st hst, rfl⟩

theorem Moved.within (hwindow : w.window.Valid) (h : w.Moved book book')
    (hbook : w.Within book) : w.Within book' := by
  induction h with
  | refl => exact hbook
  | tail _ hmove ih => exact hmove.within hwindow ih

/-- A change of a state opens nothing. -/
theorem find?_modify_of_none {other : String} (f : AssetState → AssetState)
    (h : book.find? asset = none) : (book.modify other f).find? asset = none := by
  rw [AccountBook.find?_modify]
  split
  · rename_i heq
    rw [← heq, h]
    rfl
  · exact h

/-- An asset comes into a book at the start of the window. -/
theorem Move.control_eq_start (h : w.Move book book') (hnew : book.find? asset = none)
    (hfind : book'.find? asset = some st) : st.context.control = w.window.start := by
  cases h with
  | opened other st' new kept starts usable =>
    rw [AccountBook.find?_insert] at hfind
    split at hfind
    · cases hfind
      exact starts
    · rw [hnew] at hfind
      cases hfind
  | settled found counts settles =>
    rw [find?_modify_of_none _ hnew] at hfind
    cases hfind
  | omitted other =>
    rw [AccountBook.find?_skip, hnew] at hfind
    split at hfind <;> cases hfind
  | recorded other control =>
    rw [find?_modify_of_none _ hnew] at hfind
    cases hfind

/-! ### Open assets and those left out -/

/-- An asset that is left out is not open. -/
def Separate (book : AccountBook) : Prop :=
  ∀ asset, book.isSkipped asset = true → book.find? asset = none

theorem separate_empty (account : String) : Separate (.empty account) := fun _ h => (nomatch h)

theorem Separate.modify (h : Separate book) (f : AssetState → AssetState) :
    Separate (book.modify asset f) := by
  intro other hskipped
  rw [AccountBook.isSkipped_modify] at hskipped
  exact find?_modify_of_none f (h other hskipped)

theorem Move.separate (h : w.Move book book') (hbook : Separate book) : Separate book' := by
  cases h with
  | opened asset st new kept starts usable =>
    intro other hskipped
    rw [AccountBook.isSkipped_insert] at hskipped
    have hne : other ≠ asset := by
      rintro rfl
      rw [kept] at hskipped
      cases hskipped
    rw [AccountBook.find?_insert, if_neg hne]
    exact hbook other hskipped
  | settled found counts settles => exact hbook.modify _
  | omitted asset =>
    intro other hskipped
    rw [AccountBook.find?_skip]
    by_cases heq : other = asset
    · rw [if_pos heq]
    · rw [AccountBook.isSkipped_skip, if_neg heq] at hskipped
      rw [if_neg heq]
      exact hbook other hskipped
  | recorded asset control => exact hbook.modify _

theorem Moved.separate (h : w.Moved book book') (hbook : Separate book) : Separate book' := by
  induction h with
  | refl => exact hbook
  | tail _ hmove ih => exact hmove.separate ih

/-- No move takes back that an asset is left out. -/
theorem Move.skipped (h : w.Move book book') (hskipped : book.isSkipped asset = true) :
    book'.isSkipped asset = true := by
  cases h with
  | opened other st new kept starts usable => rwa [AccountBook.isSkipped_insert]
  | settled found counts settles => rwa [AccountBook.isSkipped_modify]
  | omitted other =>
    rw [AccountBook.isSkipped_skip, hskipped]
    split <;> rfl
  | recorded other control => rwa [AccountBook.isSkipped_modify]

theorem Moved.skipped (h : w.Moved book book') (hskipped : book.isSkipped asset = true) :
    book'.isSkipped asset = true := by
  induction h with
  | refl => exact hskipped
  | tail _ hmove ih => exact hmove.skipped ih

/-- What becomes of an open asset: it stays open, its control point not taken back, or it is left
out. -/
inductive Onward (book' : AccountBook) (asset : String) (st : AssetState) : Prop
  | stays (st' : AssetState) (found : book'.find? asset = some st')
      (onward : st.context.control ≤ st'.context.control)
  | leaves (skipped : book'.isSkipped asset = true)

theorem Onward.refl (h : book.find? asset = some st) : Onward book asset st :=
  .stays st h (Int64.le_refl _)

/-- A change of a state that does not take its control point back. -/
theorem Onward.modify {other : String} {f : AssetState → AssetState}
    (hfind : book.find? asset = some st)
    (hf : ∀ st, book.find? other = some st → st.context.control ≤ (f st).context.control) :
    Onward (book.modify other f) asset st := by
  by_cases heq : asset = other
  · refine .stays (f st) ?_ (hf st (heq ▸ hfind))
    rw [AccountBook.find?_modify, if_pos heq, ← heq, hfind]
    rfl
  · refine .stays st ?_ (Int64.le_refl _)
    rw [AccountBook.find?_modify, if_neg heq]
    exact hfind

theorem Move.onward (h : w.Move book book') (hfind : book.find? asset = some st) :
    Onward book' asset st := by
  cases h with
  | opened other st' new kept starts usable =>
    have hne : asset ≠ other := by
      rintro rfl
      rw [new] at hfind
      cases hfind
    refine .stays st ?_ (Int64.le_refl _)
    rw [AccountBook.find?_insert, if_neg hne]
    exact hfind
  | settled found counts settles =>
    apply Onward.modify hfind
    intro st' hst'
    rw [found] at hst'
    cases hst'
    obtain ⟨hforward, hcontrol⟩ := control_of_settleAndApply settles
    show _ ≤ Context.control _
    rw [hcontrol]
    exact hforward
  | omitted other =>
    by_cases heq : asset = other
    · refine .leaves ?_
      rw [AccountBook.isSkipped_skip, if_pos heq]
    · refine .stays st ?_ (Int64.le_refl _)
      rw [AccountBook.find?_skip, if_neg heq]
      exact hfind
  | recorded other control => exact Onward.modify hfind fun _ _ => Int64.le_refl _

/-- Nor does any number of moves take a control point back: what is left out does not come in
again at the start. -/
theorem Moved.onward (h : w.Moved book book') (hfind : book.find? asset = some st) :
    Onward book' asset st := by
  induction h with
  | refl => exact .refl hfind
  | tail _ hmove ih =>
    cases ih with
    | stays st' found onward =>
      cases hmove.onward found with
      | stays st'' found' onward' => exact .stays st'' found' (Int64.le_trans onward onward')
      | leaves skipped => exact .leaves skipped
    | leaves skipped => exact .leaves (hmove.skipped skipped)

/-- Control points never go back: from a book of the walk to a later one, those of an asset that
both hold are in order. -/
theorem Moved.control_le (hvisits : w.Visits book) (h : w.Moved book book') {st' : AssetState}
    (hfind : book.find? asset = some st) (hfind' : book'.find? asset = some st') :
    st.context.control ≤ st'.context.control := by
  cases h.onward hfind with
  | stays st'' found onward =>
    rw [hfind'] at found
    cases found
    exact onward
  | leaves skipped =>
    have hseparate := Moved.separate (hvisits.trans h) (separate_empty w.account)
    rw [hseparate asset skipped] at hfind'
    cases hfind'

/-! ## Settlements of a walk -/

/-- Settling a state in the window and moving its balance fails, if at all, because a decimal does
not fit. -/
theorem onlyOverflows_settleAndApply (hwindow : w.window.Valid) (hconfig : w.config.check = .ok ())
    (hbook : w.Within book) (hfind : book.find? asset = some st) {occurredAt : Int64}
    (hcounts : occurredAt ≤ w.window.stop) (delta : Decimal) :
    Context.OnlyOverflows (w.settleAndApply st occurredAt delta) := by
  have hsettle := Context.onlyOverflows_settle hwindow (Config.custodyPeriod_pos hconfig)
    (hbook.usable _ _ hfind) (hbook.inOrder.reached _ _ hfind) hcounts
  unfold settleAndApply
  apply hsettle.bind
  intro settled _
  apply Context.onlyOverflows_applyDelta.bind
  intro applied _
  exact Context.onlyOverflows_ok _

theorem moves_omitOrFail {e : Error} {fail : Error → Prop}
    (hfail : e.assetScoped = false → fail e) :
    (w.omitOrFail book asset e).Ensures R.contract (w.Moved book) fail := by
  unfold omitOrFail
  split
  · rw [Attempt.ensures_lift]
    exact ⟨trivial, fun _ _ => .single (.omitted asset)⟩
  · rename_i hcause
    exact hfail (Error.assetScoped_of_assetCause? hcause)

theorem moves_openAsset (hnew : book.find? asset = none)
    (hkept : book.isSkipped asset = false) :
    (w.openAsset book asset).Ensures R.contract (w.Moved book) R.Fails := by
  unfold openAsset
  rw [Attempt.ensures_bind, Attempt.ensures_question]
  refine ⟨trivial, fun answer hallowed => ?_⟩
  obtain ⟨husable, hraised⟩ := hallowed
  rcases answer with e | fraction
  · apply moves_omitOrFail
    intro hunscoped
    rcases hraised e rfl with hscoped | hdirectory
    · rw [hscoped] at hunscoped
      cases hunscoped
    · exact .inr ⟨hdirectory, hunscoped⟩
  · show Attempt.Ensures _ _ _ (ExceptT.lift _ >>= _)
    rw [Attempt.ensures_bind, Attempt.ensures_lift]
    refine (asks_seed fraction trivial fun _ => trivial).mono fun st hst => ?_
    obtain ⟨hstarts, hfraction⟩ := hst
    refine Relation.ReflTransGen.single (.opened asset st hnew hkept hstarts ?_)
    rw [hfraction]
    exact husable fraction rfl

/-- The replay of a transfer settles its asset, or leaves it out. -/
theorem moves_replayOpen (hwindow : w.window.Valid) (hconfig : w.config.check = .ok ())
    (hbook : w.Within book) (hfind : book.find? t.asset = some st)
    (hcounts : t.occurredAt < w.window.stop) :
    (w.replayOpen book st t).Ensures R.contract (w.Moved book) R.Fails := by
  unfold replayOpen
  split
  · exact Relation.ReflTransGen.refl
  rcases hsettle : w.settleAndApply st t.occurredAt (t.deltaFor w.account) with
    e | ⟨settled, applied⟩
  · apply moves_omitOrFail
    intro hunscoped
    have honly := onlyOverflows_settleAndApply hwindow hconfig hbook hfind (Int64.le_of_lt hcounts)
      (t.deltaFor w.account)
    rw [honly.failsScoped e hsettle] at hunscoped
    cases hunscoped
  · have hmoved : w.Moved book (book.modify t.asset fun s => { s with context := applied }) :=
      .single (.settled hfind hcounts hsettle)
    show Attempt.Ensures _ _ _ (ite _ _ _)
    split
    · rw [Attempt.ensures_bind, Attempt.ensures_lift]
      refine (asks_checkpoint _ trivial fun _ => trivial).mono fun written _ => ?_
      rcases written with _ | control
      · exact hmoved
      · exact hmoved.tail (.recorded t.asset control)
    · exact hmoved

/-- One transfer. -/
theorem moves_replay (hwindow : w.window.Valid) (hconfig : w.config.check = .ok ())
    (hbook : w.Within book) (hcounts : t.occurredAt < w.window.stop) :
    (w.replay book t).Ensures R.contract (w.Moved book) R.Fails := by
  rcases hskipped : book.isSkipped t.asset with _ | _
  · rcases hfind : book.find? t.asset with _ | st
    · rw [replay_of_new hskipped hfind, Attempt.ensures_bind]
      refine (moves_openAsset hfind hskipped).mono (fun b hb => ?_) fun _ he => he
      unfold resume
      rcases hopened : b.find? t.asset with _ | st
      · exact hb
      · have hrest := moves_replayOpen (R := R) hwindow hconfig (Moved.within hwindow hb hbook)
          hopened hcounts
        exact hrest.mono (fun b' hb' => hb.trans hb') fun _ he => he
    · rw [replay_of_open hskipped hfind]
      exact moves_replayOpen hwindow hconfig hbook hfind hcounts
  · rw [replay_of_skipped hskipped]
    exact Relation.ReflTransGen.refl

/-! ## The whole walk -/

/-- The transfers of a page. -/
theorem moves_replayAll (hwindow : w.window.Valid) (hconfig : w.config.check = .ok ())
    (hbook : w.Within book) (ts : List Transfer) :
    (w.replayAll book ts).Ensures R.contract (w.Moved book) R.Fails := by
  let Inv : List Transfer → List Transfer → AccountBook → Prop := fun _ after b =>
    (∀ t ∈ after, t.occurredAt < w.window.stop) ∧ w.Moved book b
  have hall : ∀ t ∈ ts.filter fun t => t.countsBefore w.window.stop,
      t.occurredAt < w.window.stop := by
    intro t ht
    have hcounts := (List.mem_filter.mp ht).2
    simp only [Transfer.countsBefore, Bool.and_eq_true, decide_eq_true_eq] at hcounts
    exact hcounts.2
  have hbody : ∀ (before : List Transfer) (t : Transfer) (after : List Transfer) (b : AccountBook),
      Inv before (t :: after) b →
        (w.replay b t).Ensures R.contract (Inv (before ++ [t]) after) R.Fails := by
    intro before t after b hb
    obtain ⟨hafter, hmoved⟩ := hb
    have hreplay := moves_replay (R := R) hwindow hconfig (Moved.within hwindow hmoved hbook)
      (hafter t List.mem_cons_self)
    refine hreplay.mono (fun b' hb' => ?_) fun _ he => he
    exact ⟨fun t' ht' => hafter t' (List.mem_cons_of_mem _ ht'), hmoved.trans hb'⟩
  have hfold := Attempt.ensures_foldlM Inv hbody _ [] book ⟨hall, .refl⟩
  exact hfold.mono (fun b hb => hb.2) fun _ he => he

/-- The pages from some page on. -/
theorem moves_replayPages (hwindow : w.window.Valid) (hconfig : w.config.check = .ok ()) (n : Nat)
    {book : AccountBook} (hbook : w.Within book) :
    (w.replayPages n book).Ensures R.contract (w.Moved book) R.Fails := by
  rw [replayPages, Attempt.ensures_bind, Attempt.ensures_question]
  refine ⟨trivial, fun answer hallowed => ?_⟩
  rcases answer with e | listing
  · exact .inl ⟨e, hallowed e rfl, rfl⟩
  show Attempt.Ensures _ _ _ (w.replayAll book listing.items >>= _)
  rw [Attempt.ensures_bind]
  refine (moves_replayAll hwindow hconfig hbook listing.items).mono (fun b hb => ?_) fun _ he => he
  by_cases hnext : (Page.ofListing ⟨n, w.config.transferPageSize⟩ listing).hasNext = true
  · simp only [dif_pos hnext]
    have hrest := moves_replayPages hwindow hconfig (n + 1) (Moved.within hwindow hb hbook)
    exact hrest.mono (fun b' hb' => hb.trans hb') fun _ he => he
  · simp only [dif_neg hnext]
    exact hb
  termination_by maxPage - n
  decreasing_by
    have hlt : n < maxPage := Page.number_lt_maxPage hnext
    show maxPage - (n + 1) < maxPage - n
    omega

/-- The totals of an asset are those at the end of the window. -/
def ClosesAsset (w : Walk) (st : AssetState) (totals : AssetCustody) : Prop :=
  ∃ settled : Context, settled.control = w.window.stop ∧ totals = settled.custody ∧
    st.context.settle w.window w.window.stop st.fraction w.config.custodyPeriod = .ok settled

/-- Each asset reported is one of the book, with its totals at the end of the window. -/
def Closes (w : Walk) (book : AccountBook) (assets : Keyed AssetCustody) : Prop :=
  ∀ asset totals, (asset, totals) ∈ assets →
    ∃ st, book.find? asset = some st ∧ w.ClosesAsset st totals

/-- Settled up to the end a state in the window stands at the end. -/
theorem closes_finishAsset (hwindow : w.window.Valid) (hconfig : w.config.check = .ok ())
    (hbook : w.Within book) (hfind : book.find? asset = some st) :
    (w.finishAsset asset st).Ensures R.contract
      (fun totals? => ∀ totals ∈ totals?, w.ClosesAsset st totals) fun _ => False := by
  have honly := Context.onlyOverflows_settle hwindow (Config.custodyPeriod_pos hconfig)
    (hbook.usable _ _ hfind) (hbook.inOrder.reached _ _ hfind) (Int64.le_refl w.window.stop)
  unfold finishAsset
  rcases hsettle : st.context.settle w.window w.window.stop st.fraction w.config.custodyPeriod with
    e | settled
  · obtain ⟨cause, hcause⟩ := Error.assetCause?_of_assetScoped (honly.failsScoped e hsettle)
    simp only [hcause]
    exact ⟨trivial, fun _ _ _ h => (nomatch h)⟩
  · have hstop := Context.control_eq_of_settle (hbook.reaches _ _ hfind) hsettle
    show Attempt.Ensures _ _ _ (ExceptT.lift _ >>= _)
    rw [Attempt.ensures_bind, Attempt.ensures_lift]
    refine (asks_checkpoint _ trivial fun _ => trivial).mono fun _ _ totals htotals => ?_
    cases htotals
    exact ⟨settled, hstop, rfl, hsettle⟩

theorem closes_finish (hwindow : w.window.Valid) (hconfig : w.config.check = .ok ())
    (hbook : w.Within book) (entries : Keyed AssetState)
    (hentries : ∀ e ∈ entries, book.find? e.1 = some e.2) :
    (w.finish entries).Ensures R.contract (w.Closes book) fun _ => False := by
  induction entries with
  | nil => exact fun _ _ h => (nomatch h)
  | cons e rest ih =>
    obtain ⟨asset, st⟩ := e
    have hfind : book.find? asset = some st := hentries _ List.mem_cons_self
    rw [finish, Attempt.ensures_bind]
    refine (closes_finishAsset hwindow hconfig hbook hfind).mono (fun totals? htotals => ?_)
      fun _ he => he
    rw [Attempt.ensures_bind]
    refine (ih fun e he => hentries e (List.mem_cons_of_mem _ he)).mono (fun others hothers => ?_)
      fun _ he => he
    rcases totals? with _ | c
    · exact hothers
    · intro asset' totals hmem
      rcases List.mem_cons.mp hmem with heq | hmem
      · cases heq
        exact ⟨st, hfind, htotals c rfl⟩
      · exact hothers asset' totals hmem

/-- What a walk comes to: the totals of assets that moves have led to the end of the window. -/
def Reports (w : Walk) (custody : AccountCustody) : Prop :=
  custody.account = w.account ∧ ∃ book, w.Visits book ∧ w.Closes book custody.assets

/-- Whatever the stores answer, a walk is made of moves, and fails only with their errors. -/
theorem moves_run (hwindow : w.window.Valid) (hconfig : w.config.check = .ok ()) :
    w.run.Ensures R.contract w.Reports R.Fails := by
  rw [run, Attempt.ensures_bind]
  refine (moves_replayPages hwindow hconfig 1 within_empty).mono (fun book hmoved => ?_)
    fun _ he => he
  have hbook := Moved.within hwindow hmoved within_empty
  rw [Attempt.ensures_bind]
  refine (closes_finish hwindow hconfig hbook book.assets fun e he => ?_).mono
    (fun assets hassets => ?_) fun e he => he.elim
  · exact hbook.inOrder.sorted.find?_of_mem he
  · exact ⟨rfl, book, hmoved, hassets⟩

end Walk

end Custodian
