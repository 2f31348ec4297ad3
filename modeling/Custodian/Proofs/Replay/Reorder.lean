import Custodian.Proofs.Accrual.Congruence
import Custodian.Proofs.Replay.Adjacent
import Custodian.Proofs.Replay.Isolation

/-!
# The order within one instant does not show

Two ledgers that differ only in the order of transfers with one stamp lead to the same report, as
long as no balance is rounded on the way (`Walk.run_reordered`). Whichever of the transfers of an
instant comes first settles its asset up to that instant, from the balance before all of them, and
the others only move the balance. So two replays of an asset go abreast from one instant to the next
(`Walk.matches_instant`), though not from one transfer to the next: within an instant their balances
differ.

What other assets do in between does not matter (`Walk.effect_ofAsset`), so each asset is compared
where it is alone.
-/

namespace Custodian

namespace Sample

/-- Alice receives fifty units at 10. At 60 she receives twenty and pays sixty, which of the two comes
first is left open. -/
def payday (paysFirst : Bool) : Ledger :=
  let transfer (source destination : String) (amount : UInt8) (occurredAt : Int64) : Transfer :=
    ⟨source, destination, "usd#bank", units amount, occurredAt, false⟩
  let receives := transfer "treasury@bank" "alice@bank" 20 60
  let pays := transfer "alice@bank" "treasury@bank" 60 60
  [⟨⟨1, 0, 0⟩, transfer "treasury@bank" "alice@bank" 50 10⟩,
    ⟨⟨2, 0, 0⟩, if paysFirst then pays else receives⟩,
    ⟨⟨3, 0, 0⟩, if paysFirst then receives else pays⟩]

/-- The database where she receives first. -/
def paid : Database :=
  .ofTables { tables [] with transfers := some ((payday false).map .ofRecorded) }

/-- Alice's walk, with snapshots that are renewed after thirty units of time. -/
def paydayWalk : Walk :=
  Walk.make { Config.default with custodyPeriod := 30, stalenessMultiplier := 1 } ⟨20, 100⟩ account

theorem committed_payday (paysFirst : Bool) :
    (payday paysFirst).committed = (payday paysFirst).map fun r => r.transfer.stored :=
  Ledger.committed_of_pairwise (by revert paysFirst; decide)

theorem readable_payday (paysFirst : Bool) :
    paydayWalk.readable (payday paysFirst).committed =
      (payday paysFirst).map fun r => r.transfer.stored := by
  have hstream : (payday paysFirst).committed.ofAccount paydayWalk.account paydayWalk.window.stop =
      (payday paysFirst).map fun r => r.transfer.stored := by
    rw [committed_payday]
    revert paysFirst
    decide
  rw [Walk.readable_of_fits, hstream]
  rw [hstream]
  clear hstream
  revert paysFirst
  decide

end Sample

/-! ## Attempts that match -/

namespace Attempt

variable {α β α' β' : Type} {O : Oracle} {R : α → β → Prop} {S : α' → β' → Prop}
  {x : Attempt α} {y : Attempt β}

/-- With an oracle both attempts succeed, their values are related, and they record snapshots of
equal values. -/
def Matches (O : Oracle) (R : α → β → Prop) (x : Attempt α) (y : Attempt β) : Prop :=
  ∃ a b recorded recorded', x.effect O = (.ok a, recorded) ∧ y.effect O = (.ok b, recorded') ∧
    R a b ∧ List.Forall₂ Snapshot.Same recorded recorded'

theorem matches_pure {a : α} {b : β} (h : R a b) : Matches O R (pure a) (pure b) :=
  ⟨a, b, [], [], rfl, rfl, h, .nil⟩

theorem Matches.bind {f : α → Attempt α'} {g : β → Attempt β'} (h : Matches O R x y)
    (hnext : ∀ a b, R a b → Matches O S (f a) (g b)) : Matches O S (x >>= f) (y >>= g) := by
  obtain ⟨a, b, recorded, recorded', hx, hy, hab, hrecorded⟩ := h
  obtain ⟨a', b', later, later', hf, hg, hab', hlater⟩ := hnext a b hab
  refine ⟨a', b', recorded ++ later, recorded' ++ later', ?_, ?_, hab',
    List.rel_append hrecorded hlater⟩
  · rw [effect_bind_of_ok hx, hf]
  · rw [effect_bind_of_ok hy, hg]

end Attempt

/-! ## One asset in a book -/

namespace AccountBook

/-- The replay of an asset is open. -/
structure IsOpen (b : AccountBook) (asset : String) (st : AssetState) : Prop where
  find : b.find? asset = some st
  kept : b.isSkipped asset = false

/-- An asset is left out. -/
structure IsOut (b : AccountBook) (asset : String) : Prop where
  find : b.find? asset = none
  skipped : b.isSkipped asset = true

theorem isOut_skip (b : AccountBook) (asset : String) : (b.skip asset).IsOut asset :=
  ⟨by simp, by simp⟩

theorem IsOpen.modify {b : AccountBook} {asset : String} {st : AssetState} (h : b.IsOpen asset st)
    (f : AssetState → AssetState) : (b.modify asset f).IsOpen asset (f st) :=
  ⟨by simp [h.find], by simpa using h.kept⟩

end AccountBook

/-- States of replays from the first transfer on, with equal values. -/
structure AssetState.Same (st st' : AssetState) : Prop where
  context : st.context.Same st'.context
  fraction : st.fraction = st'.fraction
  fromFirst : st.replayFrom = none
  fromFirst' : st'.replayFrom = none
  last : st.lastSnapshotAt = st'.lastSnapshotAt

theorem AssetState.same_genesis (window : Window) (fraction : Decimal) :
    (AssetState.genesis window fraction).Same (.genesis window fraction) :=
  ⟨⟨rfl, rfl, rfl, rfl⟩, rfl, rfl, rfl, rfl⟩

/-- Transfers of one asset with one stamp. -/
def Commits.OfInstant (ts : Commits) (asset : String) (time : Int64) : Prop :=
  ∀ t ∈ ts, t.asset = asset ∧ t.occurredAt = time

theorem Commits.OfInstant.perm {ts ts' : Commits} {asset : String} {time : Int64}
    (h : ts.OfInstant asset time) (hperm : ts.Perm ts') : ts'.OfInstant asset time :=
  fun t ht => h t (hperm.mem_iff.mpr ht)

/-- The database with another ledger. -/
def Database.withLedger (db : Database) (ledger : Ledger) : Database :=
  db.withTransfers (some (ledger.map .ofRecorded))

namespace Walk

variable {w : Walk} {O : Oracle} {asset : String} {book book' : AccountBook}
  {st st' : AssetState} {t : Transfer} {ts ts' now now' : Commits} {settled settled' : Context}
  {held : Decimal} {time : Int64}

theorem foldlM_replay_of_out (h : book.IsOut asset) (hasset : ∀ t ∈ ts, t.asset = asset) :
    ts.foldlM w.replay book = pure book := by
  induction ts with
  | nil => rfl
  | cons t ts ih =>
    have hskipped : book.isSkipped t.asset = true := by
      rw [hasset t List.mem_cons_self]
      exact h.skipped
    rw [List.foldlM_cons, replay_of_skipped hskipped, pure_bind]
    exact ih fun t' ht' => hasset t' (List.mem_cons_of_mem _ ht')

theorem settleAndApply_of_ok {delta : Decimal}
    (hsettle : st.context.settle w.window time st.fraction w.config.custodyPeriod = .ok settled)
    (hadd : settled.balance.add? delta = some held) :
    w.settleAndApply st time delta = .ok (settled, { settled with balance := held }) := by
  have happlied : settled.applyDelta delta = .ok { settled with balance := held } := by
    unfold Context.applyDelta
    rw [hadd]
  unfold settleAndApply
  rw [hsettle]
  show (settled.applyDelta delta >>= fun applied => pure (settled, applied)) = _
  rw [happlied]
  rfl

theorem settleAndApply_of_error {delta : Decimal} {e : Error}
    (hsettle : st.context.settle w.window time st.fraction w.config.custodyPeriod = .error e) :
    w.settleAndApply st time delta = .error e := by
  unfold settleAndApply
  rw [hsettle]
  rfl

theorem isFolded_of_fromFirst (hfirst : st.replayFrom = none) : ¬st.isFolded time = true := by
  unfold AssetState.isFolded
  rw [hfirst]
  exact Bool.false_ne_true

/-- A transfer that cannot be replayed takes its asset out, or ends the walk. -/
theorem replay_of_error {e : Error} (h : book.IsOpen t.asset st) (hfirst : st.replayFrom = none)
    (he : w.settleAndApply st t.occurredAt (t.deltaFor w.account) = .error e) :
    w.replay book t = w.omitOrFail book t.asset e := by
  rw [replay_of_open h.kept h.find]
  unfold replayOpen
  rw [if_neg (isFolded_of_fromFirst hfirst), he]

/-- A transfer that can be replayed moves its asset, and is a checkpoint if time has passed. -/
theorem replay_of_ok {applied : Context} (h : book.IsOpen t.asset st)
    (hfirst : st.replayFrom = none)
    (hok : w.settleAndApply st t.occurredAt (t.deltaFor w.account) = .ok (settled, applied)) :
    w.replay book t =
      let moved := book.modify t.asset fun s => { s with context := applied }
      if st.context.control < settled.control then
        ExceptT.lift (w.checkpoint t.asset settled st.lastSnapshotAt) >>= fun written =>
          written.elim (pure moved) fun control =>
            pure (moved.modify t.asset fun s => { s with lastSnapshotAt := some control })
      else pure moved := by
  rw [replay_of_open h.kept h.find]
  unfold replayOpen
  rw [if_neg (isFolded_of_fromFirst hfirst), hok]
  show ite _ _ _ = ite _ _ _
  congr 1
  refine bind_congr fun written => ?_
  cases written <;> rfl

/-! ## One instant -/

/-- Transfers stamped at the control point or before it only move the balance. -/
theorem foldlM_replay_of_le (h : book.IsOpen asset st) (hfirst : st.replayFrom = none)
    (hasset : ∀ t ∈ ts, t.asset = asset) (hle : ∀ t ∈ ts, t.occurredAt ≤ st.context.control)
    (hheld : ts.balanceFrom w.account st.context.balance = some held) :
    ∃ b, ts.foldlM w.replay book = pure b ∧
      b.IsOpen asset { st with context := { st.context with balance := held } } := by
  induction ts generalizing book st with
  | nil =>
    cases hheld
    exact ⟨book, rfl, h⟩
  | cons t ts ih =>
    obtain rfl := hasset t List.mem_cons_self
    rw [Commits.balanceFrom_cons, Option.bind_eq_some_iff] at hheld
    obtain ⟨next, hnext, hheld⟩ := hheld
    have happlied := settleAndApply_of_ok (w := w)
      (Context.settle_of_le (hle t List.mem_cons_self)) hnext
    have hmoved := h.modify fun s => { s with context := { st.context with balance := next } }
    obtain ⟨b, hfold, hopen⟩ := ih hmoved hfirst
      (fun t' ht' => hasset t' (List.mem_cons_of_mem _ ht'))
      (fun t' ht' => hle t' (List.mem_cons_of_mem _ ht')) hheld
    refine ⟨b, ?_, hopen⟩
    rw [List.foldlM_cons, replay_of_ok h hfirst happlied, ← hfold]
    show ite _ _ _ >>= _ = _
    rw [if_neg Int64.lt_irrefl, pure_bind]

/-- Where the first transfer of an instant cannot be settled, its asset is left out. -/
theorem effect_instant_of_error {e : Error} {cause : CustodyError} (h : book.IsOpen asset st)
    (hfirst : st.replayFrom = none) (hnow : now.OfInstant asset time) (hne : now ≠ [])
    (hsettle : st.context.settle w.window time st.fraction w.config.custodyPeriod = .error e)
    (hcause : e.assetCause? = some cause) :
    (now.foldlM w.replay book).effect O = (.ok (book.skip asset), []) := by
  obtain ⟨t, rest, rfl⟩ := List.exists_cons_of_ne_nil hne
  obtain ⟨rfl, rfl⟩ := hnow t List.mem_cons_self
  have hreplay : (w.replay book t).effect O = (.ok (book.skip t.asset), []) := by
    rw [replay_of_error h hfirst (settleAndApply_of_error hsettle)]
    show (w.omitOrFail book t.asset e).effect O = _
    unfold omitOrFail
    rw [hcause]
    rfl
  rw [List.foldlM_cons, Attempt.effect_bind_of_ok hreplay,
    foldlM_replay_of_out (AccountBook.isOut_skip book t.asset) fun t' ht' =>
      (hnow t' (List.mem_cons_of_mem _ ht')).1]
  rfl

/-- The first transfer of an instant settles its asset up to it, and a snapshot may be recorded.
All of them together move the balance. -/
theorem effect_instant_of_ok (O : Oracle) (h : book.IsOpen asset st) (hfirst : st.replayFrom = none)
    (hnow : now.OfInstant asset time) (hne : now ≠ []) (hlt : st.context.control < time)
    (hsettle : st.context.settle w.window time st.fraction w.config.custodyPeriod = .ok settled)
    (hheld : now.balanceFrom w.account st.context.balance = some held) :
    ∃ b, (now.foldlM w.replay book).effect O =
        (.ok b, (w.checkpoint asset settled st.lastSnapshotAt).recorded O) ∧
      b.IsOpen asset { st with
        context := { settled with balance := held }
        lastSnapshotAt := ((w.checkpoint asset settled st.lastSnapshotAt).value O).or
          st.lastSnapshotAt } := by
  obtain ⟨t, rest, rfl⟩ := List.exists_cons_of_ne_nil hne
  obtain ⟨rfl, rfl⟩ := hnow t List.mem_cons_self
  obtain ⟨hbalance, hforward, hreached, hmoved⟩ := Context.frame_of_settle hsettle
  have hcontrol : settled.control = t.occurredAt := hmoved (Int64.lt_of_lt_of_le hlt hreached)
  rw [Commits.balanceFrom_cons, Option.bind_eq_some_iff, ← hbalance] at hheld
  obtain ⟨next, hnext, hheld⟩ := hheld
  let applied : Context := { settled with balance := next }
  let moved := book.modify t.asset fun s => { s with context := applied }
  have hopen : moved.IsOpen t.asset { st with context := applied } := h.modify _
  let written := (w.checkpoint t.asset settled st.lastSnapshotAt).value O
  obtain ⟨b, hreplay, hb⟩ : ∃ b, (w.replay book t).effect O =
      (.ok b, (w.checkpoint t.asset settled st.lastSnapshotAt).recorded O) ∧
        b.IsOpen t.asset { st with
          context := applied, lastSnapshotAt := written.or st.lastSnapshotAt } := by
    rw [replay_of_ok h hfirst (settleAndApply_of_ok hsettle hnext)]
    show ∃ b, Attempt.effect O (ite _ _ _) = _ ∧ _
    rw [if_pos (hcontrol ▸ hlt), Attempt.effect_bind_of_ok (Attempt.effect_lift _)]
    show ∃ b, Prod.mk (Attempt.effect O (written.elim _ _)).1
      (_ ++ (Attempt.effect O (written.elim _ _)).2) = _ ∧ _
    rcases written with _ | control
    · exact ⟨moved, congrArg _ (List.append_nil _), hopen⟩
    · exact ⟨_, congrArg _ (List.append_nil _), hopen.modify _⟩
  -- the others find the control point at their stamp
  obtain ⟨last, hfold, hlast⟩ := foldlM_replay_of_le hb hfirst
    (fun t' ht' => (hnow t' (List.mem_cons_of_mem _ ht')).1)
    (fun t' ht' => Int64.le_of_eq ((hnow t' (List.mem_cons_of_mem _ ht')).2.trans hcontrol.symm))
    hheld
  refine ⟨last, ?_, hlast⟩
  rw [List.foldlM_cons, Attempt.effect_bind_of_ok hreplay, hfold]
  exact congrArg _ (List.append_nil _)

/-! ## Two replays abreast -/

/-- The oracle confirms all recordings or none, in the same way. -/
def Steady (O : Oracle) : Prop := ∀ s s' : Snapshot, O (.append s) = O (.append s')

/-- Of contexts with equal values snapshots of equal values are recorded, or none of either. -/
theorem checkpoint_of_same (w : Walk) (asset : String) (hO : Steady O)
    (h : settled.Same settled') (last : Option Int64) :
    (w.checkpoint asset settled last).value O = (w.checkpoint asset settled' last).value O ∧
      List.Forall₂ Snapshot.Same ((w.checkpoint asset settled last).recorded O)
        ((w.checkpoint asset settled' last).recorded O) := by
  unfold checkpoint
  rw [h.control]
  split
  · have hsame := hO (settled.snapshot w.account asset) (settled'.snapshot w.account asset)
    rw [Dialogue.value_bind, Dialogue.value_bind, Dialogue.recorded_bind, Dialogue.recorded_bind,
      Dialogue.value_question, Dialogue.value_question, Dialogue.recorded_question,
      Dialogue.recorded_question, Oracle.recorded?, Oracle.recorded?]
    simp only [hsame]
    rcases O (.append (settled'.snapshot w.account asset)) with e | ⟨⟩
    · exact ⟨rfl, .nil⟩
    · exact ⟨rfl, .cons (h.snapshot w.account asset) .nil⟩
  · exact ⟨rfl, .nil⟩

/-- The replays of one asset are open in two walks, in states of equal values, and what follows adds
up exactly. -/
structure Running (w : Walk) (asset : String) (ts ts' : Commits) (st st' : AssetState)
    (book book' : AccountBook) : Prop where
  isOpen : book.IsOpen asset st
  isOpen' : book'.IsOpen asset st'
  same : st.Same st'
  sums : ts.SumsExactly w.account st.context.balance
  sums' : ts'.SumsExactly w.account st'.context.balance

/-- Where the replays of one asset stand in two walks between two instants: both are running, or the
asset is left out of both. -/
inductive Abreast (w : Walk) (asset : String) (ts ts' : Commits) (book book' : AccountBook) : Prop
  | out (hout : book.IsOut asset) (hout' : book'.IsOut asset)
  | running (st st' : AssetState) (h : w.Running asset ts ts' st st' book book')

namespace Running

/-- After the same transfers in any order the balances have one value, and the rest still adds up. -/
theorem balances (h : w.Running asset (now ++ ts) (now' ++ ts') st st' book book')
    (hperm : now.Perm now') :
    ∃ held held', now.balanceFrom w.account st.context.balance = some held ∧
      now'.balanceFrom w.account st'.context.balance = some held' ∧ held.value = held'.value ∧
      ts.SumsExactly w.account held ∧ ts'.SumsExactly w.account held' := by
  obtain ⟨hnow, hlater⟩ := h.sums.of_append
  obtain ⟨hnow', hlater'⟩ := h.sums'.of_append
  obtain ⟨held, held', hheld, hheld', hvalue⟩ := hnow.value_eq hnow' hperm h.same.context.balance
  exact ⟨held, held', hheld, hheld', hvalue, hlater held hheld, hlater' held' hheld'⟩

/-- Transfers of an instant that has been reached only move the balances. -/
theorem matches_of_le (h : w.Running asset (now ++ ts) (now' ++ ts') st st' book book')
    (hperm : now.Perm now') (hnow : now.OfInstant asset time) (hle : time ≤ st.context.control) :
    Attempt.Matches O (w.Abreast asset ts ts') (now.foldlM w.replay book)
      (now'.foldlM w.replay book') := by
  obtain ⟨held, held', hheld, hheld', hvalue, hsums, hsums'⟩ := h.balances hperm
  have hnow' := hnow.perm hperm
  have hle' : time ≤ st'.context.control := h.same.context.control ▸ hle
  obtain ⟨b, hfold, hb⟩ := foldlM_replay_of_le h.isOpen h.same.fromFirst
    (fun t ht => (hnow t ht).1) (fun t ht => (hnow t ht).2 ▸ hle) hheld
  obtain ⟨b', hfold', hb'⟩ := foldlM_replay_of_le h.isOpen' h.same.fromFirst'
    (fun t ht => (hnow' t ht).1) (fun t ht => (hnow' t ht).2 ▸ hle') hheld'
  have hcontext := h.same.context
  rw [hfold, hfold']
  exact Attempt.matches_pure (.running _ _ ⟨hb, hb', { h.same with
    context := ⟨hcontext.fee, hcontext.auc, hcontext.control, hvalue⟩ }, hsums, hsums'⟩)

/-- The first transfer of a later instant settles from the balance before all of them, whichever it
is. -/
theorem matches_of_lt (hvalid : w.window.Valid) (hconfig : w.config.check = .ok ())
    (hO : Steady O) (h : w.Running asset (now ++ ts) (now' ++ ts') st st' book book')
    (hperm : now.Perm now') (hnow : now.OfInstant asset time) (hne : now ≠ [])
    (hlt : st.context.control < time) :
    Attempt.Matches O (w.Abreast asset ts ts') (now.foldlM w.replay book)
      (now'.foldlM w.replay book') := by
  have hnow' := hnow.perm hperm
  have hne' : now' ≠ [] := fun hnil => hne (hnil ▸ hperm).eq_nil
  have hlt' : st'.context.control < time := h.same.context.control ▸ hlt
  have hsettle : Option.Rel Context.Same
      (st.context.settle w.window time st.fraction w.config.custodyPeriod).toOption
      (st'.context.settle w.window time st'.fraction w.config.custodyPeriod).toOption := by
    rw [h.same.fraction]
    exact h.same.context.settle
  rcases ok_or_error_of_rel hsettle with ⟨settled, settled', hok, hok', hsettled⟩ |
    ⟨e, e', he, he'⟩
  · obtain ⟨held, held', hheld, hheld', hvalue, hsums, hsums'⟩ := h.balances hperm
    obtain ⟨b, heffect, hb⟩ :=
      effect_instant_of_ok O h.isOpen h.same.fromFirst hnow hne hlt hok hheld
    obtain ⟨b', heffect', hb'⟩ :=
      effect_instant_of_ok O h.isOpen' h.same.fromFirst' hnow' hne' hlt' hok' hheld'
    obtain ⟨hwritten, hrecorded⟩ := checkpoint_of_same w asset hO hsettled st.lastSnapshotAt
    rw [← h.same.last] at heffect' hb'
    refine ⟨b, b', _, _, heffect, heffect', .running _ _ ⟨hb, hb', ?_, hsums, hsums'⟩, hrecorded⟩
    exact { h.same with
      context := ⟨hsettled.fee, hsettled.auc, hsettled.control, hvalue⟩
      last := congrArg (Option.or · _) hwritten }
  · have hperiod := Config.custodyPeriod_pos hconfig
    obtain ⟨cause, hcause⟩ := Context.exists_cause_of_settle hvalid hperiod he
    obtain ⟨cause', hcause'⟩ := Context.exists_cause_of_settle hvalid hperiod he'
    exact ⟨_, _, [], [],
      effect_instant_of_error h.isOpen h.same.fromFirst hnow hne he hcause,
      effect_instant_of_error h.isOpen' h.same.fromFirst' hnow' hne' he' hcause',
      .out (book.isOut_skip asset) (book'.isOut_skip asset), .nil⟩

end Running

/-- The transfers of one instant, in two orders. -/
theorem matches_instant (hvalid : w.window.Valid) (hconfig : w.config.check = .ok ())
    (hO : Steady O) (hperm : now.Perm now') (hnow : now.OfInstant asset time) (hne : now ≠ [])
    (h : w.Abreast asset (now ++ ts) (now' ++ ts') book book') :
    Attempt.Matches O (w.Abreast asset ts ts') (now.foldlM w.replay book)
      (now'.foldlM w.replay book') := by
  rcases h with ⟨hout, hout'⟩ | ⟨st, st', hrunning⟩
  · rw [foldlM_replay_of_out hout fun t ht => (hnow t ht).1,
      foldlM_replay_of_out hout' fun t ht => (hnow.perm hperm t ht).1]
    exact Attempt.matches_pure (.out hout hout')
  · by_cases hle : time ≤ st.context.control
    · exact hrunning.matches_of_le hperm hnow hle
    · exact hrunning.matches_of_lt hvalid hconfig hO hperm hnow hne (Int64.not_le.mp hle)

/-- Two streams of one asset, one instant after the other. -/
theorem matches_foldlM (hvalid : w.window.Valid) (hconfig : w.config.check = .ok ())
    (hO : Steady O) (hperm : ts.Perm ts') (hasset : ∀ t ∈ ts, t.asset = asset)
    (hordered : ts.Pairwise fun a b => a.occurredAt ≤ b.occurredAt)
    (hordered' : ts'.Pairwise fun a b => a.occurredAt ≤ b.occurredAt)
    (h : w.Abreast asset ts ts' book book') :
    Attempt.Matches O (w.Abreast asset [] []) (ts.foldlM w.replay book)
      (ts'.foldlM w.replay book') := by
  -- by the number of transfers, as each instant takes at least one of them away
  induction hlength : ts.length using Nat.strong_induction_on generalizing ts ts' book book' with
  | _ n ih =>
    rcases hts : ts with _ | ⟨t, rest⟩
    · rw [hts] at hperm h
      cases hperm.nil_eq
      exact Attempt.matches_pure h
    rw [← hts]
    have ht : t ∈ ts := hts ▸ List.mem_cons_self
    have hfirst : ∀ t' ∈ ts, t.occurredAt ≤ t'.occurredAt := by
      rw [hts] at hordered ⊢
      intro t' ht'
      rcases List.mem_cons.mp ht' with rfl | ht'
      · exact Int64.le_refl _
      · exact (List.pairwise_cons.mp hordered).1 t' ht'
    have hnow : (ts.upTo t.occurredAt).OfInstant asset t.occurredAt := fun t' ht' =>
      ⟨hasset t' (Commits.mem_upTo.mp ht').1,
        Int64.le_antisymm (Commits.mem_upTo.mp ht').2 (hfirst t' (Commits.mem_upTo.mp ht').1)⟩
    have hne : ts.upTo t.occurredAt ≠ [] :=
      List.ne_nil_of_mem (Commits.mem_upTo.mpr ⟨ht, Int64.le_refl _⟩)
    have hshorter : (ts.beyond t.occurredAt).length < n := by
      rw [← hlength]
      exact List.length_filter_lt_length_iff_exists.mpr
        ⟨t, ht, fun hlt => Int64.lt_irrefl (of_decide_eq_true hlt)⟩
    have hsplit := Commits.upTo_append_beyond hordered t.occurredAt
    have hsplit' := Commits.upTo_append_beyond hordered' t.occurredAt
    rw [← hsplit, ← hsplit'] at h
    rw [← hsplit, ← hsplit', List.foldlM_append, List.foldlM_append]
    refine (matches_instant hvalid hconfig hO (hperm.filter _) hnow hne h).bind fun b b' hb => ?_
    exact ih _ hshorter (hperm.filter _) (fun t' ht' => hasset t' (Commits.mem_beyond.mp ht').1)
      (hordered.filter _) (hordered'.filter _) hb rfl

/-! ## From the first transfer to the end of the window -/

/-- No replay finds a snapshot to start from. -/
def StartsAfresh (w : Walk) (O : Oracle) (asset : String) : Prop :=
  ∀ fraction, w.policy.stateFrom (O (.snapshot w.account asset w.window.start)) w.window fraction =
    .genesis w.window fraction

/-- The look-up of a snapshot records nothing. -/
theorem effect_seed (w : Walk) (O : Oracle) (asset : String) (fraction : Decimal) :
    Attempt.effect O (ExceptT.lift (w.policy.seed w.account asset w.window fraction)) =
      (.ok (w.policy.stateFrom (O (.snapshot w.account asset w.window.start)) w.window fraction),
        []) := by
  rw [Attempt.effect_lift]
  unfold SnapshotPolicy.seed SnapshotPolicy.stateFrom
  split
  · rw [Dialogue.value_bind, Dialogue.recorded_bind, Dialogue.value_question,
      Dialogue.recorded_question]
    rcases O (.snapshot w.account asset w.window.start) with e | _ | snapshot
    · rfl
    · rfl
    · rfl
  · rfl

/-- Opened, an asset stands at the start of the window, or is left out. -/
theorem effect_openAsset (book : AccountBook) (hfree : w.blocked? (.ofOracle O) asset = none)
    (hfresh : w.StartsAfresh O asset) (hkept : book.isSkipped asset = false) :
    ∃ b, (w.openAsset book asset).effect O = (.ok b, []) ∧
      (b.IsOut asset ∨ ∃ fraction, b.IsOpen asset (.genesis w.window fraction)) := by
  unfold openAsset
  rw [Attempt.effect_bind_of_ok (Attempt.effect_question _)]
  rcases hrate : O (.rate w.scope asset) with e | fraction
  · have hlookup : (Lookups.ofOracle O).rate w.scope asset = .error e := hrate
    have hsome : e.assetCause?.isSome = true := by
      unfold blocked? at hfree
      rw [hlookup] at hfree
      by_contra hnone
      cases (if_neg hnone).symm.trans hfree
    obtain ⟨cause, hcause⟩ := Option.isSome_iff_exists.mp hsome
    refine ⟨book.skip asset, ?_, .inl (book.isOut_skip asset)⟩
    show Prod.mk ((w.omitOrFail book asset e).effect O).1
      ([] ++ ((w.omitOrFail book asset e).effect O).2) = _
    unfold omitOrFail
    rw [hcause]
    rfl
  · refine ⟨book.insert asset (.genesis w.window fraction), ?_, .inr ⟨fraction, by simp, ?_⟩⟩
    · have hseed := effect_seed w O asset fraction
      rw [hfresh fraction] at hseed
      show Prod.mk (Attempt.effect O (ExceptT.lift (w.policy.seed w.account asset w.window
        fraction) >>= _)).1 ([] ++ (Attempt.effect O (ExceptT.lift (w.policy.seed w.account asset
        w.window fraction) >>= _)).2) = _
      rw [Attempt.effect_bind_of_ok hseed]
      rfl
    · simpa using hkept

/-- The first transfer of an asset opens it and is then replayed like any other. -/
theorem effect_foldlM_of_new (hfree : w.blocked? (.ofOracle O) asset = none)
    (hfresh : w.StartsAfresh O asset) :
    ∃ b, (b.IsOut asset ∨ ∃ fraction, b.IsOpen asset (.genesis w.window fraction)) ∧
      ∀ t ts, t.asset = asset → ((t :: ts).foldlM w.replay (.empty w.account)).effect O =
        ((t :: ts).foldlM w.replay b).effect O := by
  obtain ⟨b, hopened, hb⟩ := effect_openAsset (.empty w.account) hfree hfresh rfl
  refine ⟨b, hb, ?_⟩
  rintro t ts rfl
  have hresume : w.resume t b = w.replay b t := by
    unfold resume
    rcases hb with hout | ⟨fraction, hopen⟩
    · rw [replay_of_skipped hout.skipped, hout.find]
      rfl
    · rw [replay_of_open hopen.kept hopen.find, hopen.find]
      rfl
  rw [List.foldlM_cons, List.foldlM_cons, replay_of_new rfl rfl, bind_assoc,
    Attempt.effect_bind_of_ok hopened, hresume]
  rfl

/-- Two streams of one asset that differ only in the order within instants, from the start. -/
theorem matches_stream (hvalid : w.window.Valid) (hconfig : w.config.check = .ok ())
    (hO : Steady O) (hfree : ∀ t ∈ ts, w.blocked? (.ofOracle O) t.asset = none)
    (hfresh : w.StartsAfresh O asset) (hperm : ts.Perm ts') (hasset : ∀ t ∈ ts, t.asset = asset)
    (hordered : ts.Pairwise fun a b => a.occurredAt ≤ b.occurredAt)
    (hordered' : ts'.Pairwise fun a b => a.occurredAt ≤ b.occurredAt)
    (hsums : ts.SumsExactly w.account .zero) (hsums' : ts'.SumsExactly w.account .zero)
    (hne : ts ≠ []) :
    Attempt.Matches O (w.Abreast asset [] []) (ts.foldlM w.replay (.empty w.account))
      (ts'.foldlM w.replay (.empty w.account)) := by
  rcases hts : ts with _ | ⟨t, rest⟩
  · exact absurd hts hne
  rcases hts' : ts' with _ | ⟨t', rest'⟩
  · rw [hts, hts'] at hperm
    cases hperm.eq_nil
  have ht : t.asset = asset := hasset t (hts ▸ List.mem_cons_self)
  have ht' : t'.asset = asset := hasset t' (hperm.mem_iff.mpr (hts' ▸ List.mem_cons_self))
  obtain ⟨b, hb, hfold⟩ :=
    effect_foldlM_of_new (ht ▸ hfree t (hts ▸ List.mem_cons_self)) hfresh
  have habreast : w.Abreast asset ts ts' b b := by
    rcases hb with hout | ⟨fraction, hopen⟩
    · exact .out hout hout
    · exact .running _ _ ⟨hopen, hopen, AssetState.same_genesis _ _, hsums, hsums'⟩
  obtain ⟨last, last', recorded, recorded', heffect, heffect', hend⟩ :=
    matches_foldlM hvalid hconfig hO hperm hasset hordered hordered' habreast
  rw [hts, ← hfold t rest ht] at heffect
  rw [hts', ← hfold t' rest' ht'] at heffect'
  exact ⟨last, last', recorded, recorded', heffect, heffect', hend⟩

/-- At the end of the window states of equal values give totals of equal values. -/
theorem matches_finishAsset (asset : String) (hvalid : w.window.Valid)
    (hconfig : w.config.check = .ok ()) (hO : Steady O) (hsame : st.Same st') :
    Attempt.Matches O (Option.Rel AssetCustody.Same) (w.finishAsset asset st)
      (w.finishAsset asset st') := by
  have hsettle : Option.Rel Context.Same
      (st.context.settle w.window w.window.stop st.fraction w.config.custodyPeriod).toOption
      (st'.context.settle w.window w.window.stop st'.fraction w.config.custodyPeriod).toOption := by
    rw [hsame.fraction]
    exact hsame.context.settle
  unfold finishAsset
  rcases ok_or_error_of_rel hsettle with ⟨settled, settled', hok, hok', hsettled⟩ |
    ⟨e, e', he, he'⟩
  · rw [hok, hok', ← hsame.last]
    obtain ⟨-, hrecorded⟩ :=
      checkpoint_of_same w asset hO hsettled st.lastSnapshotAt
    refine ⟨some settled.custody, some settled'.custody, _, _,
      Attempt.effect_bind_of_ok (Attempt.effect_lift _),
      Attempt.effect_bind_of_ok (Attempt.effect_lift _), .some ⟨hsettled.fee, hsettled.auc⟩, ?_⟩
    exact List.rel_append hrecorded .nil
  · have hperiod := Config.custodyPeriod_pos hconfig
    obtain ⟨cause, hcause⟩ := Context.exists_cause_of_settle hvalid hperiod he
    obtain ⟨cause', hcause'⟩ := Context.exists_cause_of_settle hvalid hperiod he'
    rw [he, he']
    simp only [hcause, hcause']
    exact ⟨none, none, [], [], rfl, rfl, .none, .nil⟩

/-! ## The whole walk -/

/-- Where an asset stands in two books before the end of the window. -/
inductive Level (asset : String) (book book' : AccountBook) : Prop
  | closed (h : book.find? asset = none) (h' : book'.find? asset = none)
  | running (st st' : AssetState) (h : book.find? asset = some st)
      (h' : book'.find? asset = some st') (hsame : st.Same st')

theorem Abreast.level (h : w.Abreast asset [] [] book book') : Level asset book book' := by
  rcases h with ⟨hout, hout'⟩ | ⟨st, st', h⟩
  · exact .closed hout.find hout'.find
  · exact .running st st' h.isOpen.find h.isOpen'.find h.same

variable {O' : Oracle}

/-- All transfers of two walks that read the same but for the order within instants, as far as one
asset goes. -/
theorem level_foldlM (hvalid : w.window.Valid) (hconfig : w.config.check = .ok ())
    (hO : Steady O) (hagree : w.AgreeAbout O' O)
    (hfree : ∀ t ∈ ts, w.blocked? (.ofOracle O) t.asset = none)
    (hfresh : w.StartsAfresh O asset) (hperm : ts.Perm ts')
    (hordered : ts.Pairwise fun a b => a.occurredAt ≤ b.occurredAt)
    (hordered' : ts'.Pairwise fun a b => a.occurredAt ≤ b.occurredAt)
    (hsums : (ts.ofAsset asset).SumsExactly w.account .zero)
    (hsums' : (ts'.ofAsset asset).SumsExactly w.account .zero) {before before' : List Snapshot}
    (hfold : (ts.foldlM w.replay (.empty w.account)).effect O = (.ok book, before))
    (hfold' : (ts'.foldlM w.replay (.empty w.account)).effect O' = (.ok book', before')) :
    w.InOrder book ∧ w.InOrder book' ∧ Level asset book book' ∧
      List.Forall₂ Snapshot.Same (before.filter fun s => s.asset == asset)
        (before'.filter fun s => s.asset == asset) := by
  have hself : w.AgreeAbout O O := fun _ _ _ => rfl
  obtain ⟨b, halone, hbook, -, hstate, -⟩ := effect_ofAsset hself asset ts inOrder_empty
    inOrder_empty ⟨rfl, rfl⟩ hfold
  obtain ⟨b', halone', hbook', -, hstate', -⟩ := effect_ofAsset hagree asset ts' inOrder_empty
    inOrder_empty ⟨rfl, rfl⟩ hfold'
  refine ⟨hbook, hbook', ?_⟩
  have hown : (ts.ofAsset asset).Perm (ts'.ofAsset asset) := hperm.filter _
  suffices hlevel : Level asset b b' ∧
      List.Forall₂ Snapshot.Same (before.filter fun s => s.asset == asset)
        (before'.filter fun s => s.asset == asset) by
    refine ⟨?_, hlevel.2⟩
    rcases hlevel.1 with ⟨h, h'⟩ | ⟨st, st', h, h', hsame⟩
    · exact .closed (hstate.trans h) (hstate'.trans h')
    · exact .running st st' (hstate.trans h) (hstate'.trans h') hsame
  by_cases hnil : ts.ofAsset asset = []
  · rw [hnil] at hown halone
    rw [hown.nil_eq.symm] at halone'
    obtain ⟨hb, hrecorded⟩ := Prod.mk.inj halone
    obtain ⟨hb', hrecorded'⟩ := Prod.mk.inj halone'
    cases hb
    cases hb'
    exact ⟨.closed rfl rfl, hrecorded ▸ hrecorded' ▸ .nil⟩
  · obtain ⟨last, last', recorded, recorded', heffect, heffect', habreast, hrecorded⟩ :=
      matches_stream hvalid hconfig hO (fun t ht => hfree t (Commits.mem_ofAsset.mp ht).1) hfresh
        hown (fun t ht => (Commits.mem_ofAsset.mp ht).2) (hordered.filter _) (hordered'.filter _)
        hsums hsums' hnil
    cases heffect.symm.trans halone
    cases heffect'.symm.trans halone'
    exact ⟨habreast.level, hrecorded⟩

/-- Two walks that read the same but for the order within instants report of an asset, and record of
it, the same values. -/
theorem same_of_effect (hvalid : w.window.Valid) (hconfig : w.config.check = .ok ())
    (hO : Steady O) (hagree : w.AgreeAbout O' O)
    (hreading : w.reading (.ofOracle O) 1 = (ts, none))
    (hreading' : w.reading (.ofOracle O') 1 = (ts', none))
    (hfree : ∀ t ∈ ts, w.blocked? (.ofOracle O) t.asset = none)
    (hfresh : w.StartsAfresh O asset) (hperm : ts.Perm ts')
    (hordered : ts.Pairwise fun a b => a.occurredAt ≤ b.occurredAt)
    (hordered' : ts'.Pairwise fun a b => a.occurredAt ≤ b.occurredAt)
    (hsums : (ts.ofAsset asset).SumsExactly w.account .zero)
    (hsums' : (ts'.ofAsset asset).SumsExactly w.account .zero)
    {custody custody' : AccountCustody} {recorded recorded' : List Snapshot}
    (heffect : w.run.effect O = (.ok custody, recorded))
    (heffect' : w.run.effect O' = (.ok custody', recorded')) :
    Option.Rel AssetCustody.Same (custody.assets.find? asset) (custody'.assets.find? asset) ∧
      List.Forall₂ Snapshot.Same (recorded.filter fun s => s.asset == asset)
        (recorded'.filter fun s => s.asset == asset) := by
  obtain ⟨book, before, after, hfold, hfinish, rfl⟩ := of_effect_run hreading heffect
  obtain ⟨book', before', after', hfold', hfinish', rfl⟩ := of_effect_run hreading' heffect'
  obtain ⟨hbook, hbook', hlevel, hbefore⟩ := level_foldlM hvalid hconfig hO hagree hfree hfresh
    hperm hordered hordered' hsums hsums' hfold hfold'
  have hlast := effect_finish asset hvalid.1 _ hbook.sorted hfinish
  have hlast' := effect_finish asset hvalid.1 _ hbook'.sorted hfinish'
  rw [List.filter_append, List.filter_append]
  rcases hlevel with ⟨h, h'⟩ | ⟨st, st', h, h', hsame⟩
  · rw [show book.assets.find? asset = none from h] at hlast
    rw [show book'.assets.find? asset = none from h'] at hlast'
    rw [hlast.1, hlast'.1, hlast.2, hlast'.2]
    exact ⟨.none, List.rel_append hbefore .nil⟩
  · rw [show book.assets.find? asset = some st from h] at hlast
    rw [show book'.assets.find? asset = some st' from h'] at hlast'
    have hown := (touches_finishAsset hvalid.1 st').effect_eq (fun _ _ => trivial) (hagree asset)
    obtain ⟨totals, totals', later, later', htotals, htotals', hrel, hlater⟩ :=
      matches_finishAsset asset hvalid hconfig hO hsame
    obtain ⟨hfound, hrecorded⟩ := Prod.mk.inj (htotals.symm.trans hlast)
    obtain ⟨hfound', hrecorded'⟩ := Prod.mk.inj ((htotals'.symm.trans hown).trans hlast')
    cases hfound
    cases hfound'
    rw [← hrecorded, ← hrecorded']
    exact ⟨hrel, List.rel_append hbefore hlater⟩

/-! ## Two ledgers -/

variable {config : Config} {window : Window} {account : Account} {memo : RateMemo}
  {db : Database} {ledger ledger' : Ledger}

/-- The stamps of a stream that is ordered by time ascend. -/
theorem pairwise_of_readable (h : (w.readable ts).TimeOrdered) :
    (w.readable ts).Pairwise fun a b => a.occurredAt ≤ b.occurredAt := by
  have hcounts : ∀ t ∈ w.readable ts, t.rejected = false := fun t ht =>
    (Commits.mem_ofAccount.mp (List.mem_of_mem_take ht)).2.2.1
  exact h.imp_of_mem fun ha hb hab => hab (hcounts _ ha) (hcounts _ hb)

/-- A database without snapshots gives no replay one to start from. -/
theorem startsAfresh_answers (hempty : w.config.snapshotsEnabled = true → db.snapshotRows = []) :
    w.StartsAfresh (answers .none memo db) asset := by
  intro fraction
  unfold SnapshotPolicy.stateFrom
  split
  · rename_i henabled
    have hnone : ∀ snapshot, answers .none memo db (.snapshot w.account asset w.window.start) ≠
        .ok (some snapshot) := by
      intro snapshot hfound
      obtain ⟨record, hrecord, -⟩ := Tables.snapshotUpTo_eq_some hfound
      obtain ⟨rows, r, htable, hr, -⟩ := Tables.recordUpTo_eq_some hrecord
      have hrows : db.snapshotRows = rows := by
        unfold Database.snapshotRows
        rw [htable]
        rfl
      rw [← hrows, hempty henabled] at hr
      cases hr
    rcases hanswer : answers .none memo db (.snapshot w.account asset w.window.start) with
      e | _ | snapshot
    · rfl
    · rfl
    · exact absurd hanswer (hnone snapshot)
  · rfl

/-- All recordings in a database are answered alike. -/
theorem steady_answers (hfresh : db.Fresh) : Steady (answers .none memo db) := by
  have hrecording : ∀ s, answers .none memo db (.append s) = db.recording := by
    intro s
    have hkept : SnapshotFaults.none.recording s.asset s.control = none := rfl
    obtain ⟨_, hrun, -⟩ := Session.answer_append_of_fresh (s := ⟨memo, db⟩) .none hfresh hkept
    exact congrArg Prod.fst hrun
  intro s s'
  rw [hrecording, hrecording]

/-- What a walk by itself ends in on a database, and the session that it leaves. -/
def runOn (w : Walk) (db : Database) : Except Error AccountCustody × Session Database :=
  (w.run.run.run (Session.answer Database.stores)).run ⟨.empty, db⟩

/-- Let an account's walk read the same transfers from two ledgers, from each of them ordered by
time; so the two orders differ only within instants. Snapshots are disabled, or there is none yet.
Then the walk succeeds on both or on neither. If it does, then of each asset whose
transfers add up without rounding in both orders it reports totals of equal values or none, and it
records snapshots at the same control points, with fees and balances of equal values. -/
theorem run_reordered (hrecords : db.tables.Records ledger) (hfresh : db.Fresh)
    (hconfig : config.check = .ok ()) (hwindow : window.Valid)
    (hempty : config.snapshotsEnabled = true → db.snapshotRows = [])
    (hordered : ((make config window account).readable ledger.committed).TimeOrdered)
    (hordered' : ((make config window account).readable ledger'.committed).TimeOrdered)
    (hperm : ((make config window account).readable ledger.committed).Perm
      ((make config window account).readable ledger'.committed)) :
    let w := make config window account
    let first := w.runOn db
    let second := w.runOn (db.withLedger ledger')
    ((∃ custody, first.1 = .ok custody) ↔ ∃ custody, second.1 = .ok custody) ∧
      ∀ custody custody', first.1 = .ok custody → second.1 = .ok custody' → ∀ asset,
        ((w.readable ledger.committed).ofAsset asset).SumsExactly account.id .zero →
        ((w.readable ledger'.committed).ofAsset asset).SumsExactly account.id .zero →
        Option.Rel AssetCustody.Same (custody.assets.find? asset) (custody'.assets.find? asset) ∧
        ∃ log log' : List Snapshot,
          Database.addedFor asset db first.2.stores = log.map Snapshot.unstamped ∧
          Database.addedFor asset (db.withLedger ledger') second.2.stores =
            log'.map Snapshot.unstamped ∧
          List.Forall₂ Snapshot.Same log log' := by
  intro w first second
  have hvalid : w.window.Valid := hwindow
  have hsettings : w.config.check = .ok () := hconfig
  let O : Oracle := answers .none .empty db
  let O' : Oracle := answers .none .empty (db.withLedger ledger')
  have hagree : w.AgreeAbout O O' := w.agreeAbout_withTransfers .none .empty hfresh _
  have hreading : w.reading (.ofOracle O) 1 = (w.readable ledger.committed, none) :=
    reading_eq_readable hrecords rfl hsettings
  have hrecords' : (db.withLedger ledger').tables.Records ledger' := rfl
  have hfresh' : (db.withLedger ledger').Fresh := hfresh
  have hreading' : w.reading (.ofOracle O') 1 = (w.readable ledger'.committed, none) :=
    reading_eq_readable hrecords' rfl hsettings
  obtain ⟨s, recorded, hrun, heffect, hs⟩ := run_with_faults .none .empty hvalid hsettings hfresh
  obtain ⟨s', recorded', hrun', heffect', hs'⟩ :=
    run_with_faults .none .empty hvalid hsettings hfresh'
  have hfirst : first = (w.result (.ofOracle O), s) := hrun
  have hsecond : second = (w.result (.ofOracle O'), s') := hrun'
  rw [hfirst, hsecond]
  refine ⟨?_, ?_⟩
  · show (∃ custody, w.result (.ofOracle O) = .ok custody) ↔
      ∃ custody, w.result (.ofOracle O') = .ok custody
    rw [exists_result_iff hreading, exists_result_iff hreading']
    simp only [blocked?_congr hagree]
    exact ⟨fun h t ht => h t (hperm.mem_iff.mpr ht), fun h t ht => h t (hperm.mem_iff.mp ht)⟩
  · intro custody custody' hok hok' asset hsums hsums'
    have hok : w.result (.ofOracle O) = .ok custody := hok
    have hok' : w.result (.ofOracle O') = .ok custody' := hok'
    rw [show w.result (.ofOracle (answers .none .empty db)) = .ok custody from hok] at heffect
    rw [show w.result (.ofOracle (answers .none .empty (db.withLedger ledger'))) = .ok custody'
      from hok'] at heffect'
    obtain ⟨hrel, hrecorded⟩ := same_of_effect hvalid hsettings
      (steady_answers hfresh) (fun asset q hq => (hagree asset q hq).symm) hreading hreading'
      ((exists_result_iff hreading).mp ⟨custody, hok⟩) (startsAfresh_answers hempty) hperm
      (pairwise_of_readable hordered) (pairwise_of_readable hordered') hsums hsums' heffect heffect'
    refine ⟨hrel, ?_⟩
    rcases htable : db.tables.snapshots with _ | rows
    · exact ⟨[], [], hs.addedFor_eq_nil htable asset, hs'.addedFor_eq_nil htable asset, .nil⟩
    · exact ⟨_, _, hs.addedFor_eq htable asset, hs'.addedFor_eq htable asset, hrecorded⟩

/-- Whether she pays or receives first, Alice's totals and her snapshots at 60 and 100 have the same
values, though her balance is negative in between if she pays first. -/
theorem run_of_payday :
    let db := Sample.paid
    let db' := db.withLedger (Sample.payday true)
    let first := Sample.paydayWalk.runOn db
    let second := Sample.paydayWalk.runOn db'
    ∃ custody custody', first.1 = .ok custody ∧ second.1 = .ok custody' ∧
      custody.assets.find? "usd#bank" ≠ none ∧
      Option.Rel AssetCustody.Same (custody.assets.find? "usd#bank")
        (custody'.assets.find? "usd#bank") ∧
      ∃ log log' : List Snapshot,
        Database.addedFor "usd#bank" db first.2.stores = log.map Snapshot.unstamped ∧
        Database.addedFor "usd#bank" db' second.2.stores = log'.map Snapshot.unstamped ∧
        List.Forall₂ Snapshot.Same log log' := by
  intro db db' first second
  have hread := Sample.readable_payday
  have hconfig : Sample.paydayWalk.config.check = .ok () := by decide
  let totals : AssetCustody :=
    ⟨⟨false, 7999999980, 9, by decide, by decide⟩, ⟨false, 3000, 2, by decide, by decide⟩⟩
  have hrun : first.1 = .ok ⟨"alice@bank", [("usd#bank", totals)]⟩ := by
    have hresult := @resultOn_eq Sample.paydayWalk (Sample.payday false) Sample.paid rfl hconfig
      (by decide)
    rw [hread] at hresult
    refine Eq.trans hresult ?_
    decide +kernel
  have hordered : ∀ paysFirst,
      (Sample.paydayWalk.readable (Sample.payday paysFirst).committed).TimeOrdered := by
    intro paysFirst
    rw [hread]
    revert paysFirst
    decide
  have hsums : ∀ paysFirst,
      ((Sample.paydayWalk.readable (Sample.payday paysFirst).committed).ofAsset
        "usd#bank").SumsExactly "alice@bank" .zero := by
    intro paysFirst
    rw [hread]
    revert paysFirst
    decide +kernel
  have hperm : (Sample.paydayWalk.readable (Sample.payday false).committed).Perm
      (Sample.paydayWalk.readable (Sample.payday true).committed) := by
    rw [hread, hread]
    exact .cons _ (.swap _ _ _)
  obtain ⟨hiff, hsame⟩ := @run_reordered Sample.paydayWalk.config ⟨20, 100⟩ Sample.account
    Sample.paid (Sample.payday false) (Sample.payday true) rfl
    (Database.fresh_ofTables fun rows hrows r hr => by cases hrows; cases hr) hconfig (by decide)
    (fun _ => rfl) (hordered false) (hordered true) hperm
  obtain ⟨custody', hrun'⟩ := hiff.mp ⟨_, hrun⟩
  obtain ⟨hrel, hlogs⟩ := hsame _ _ hrun hrun' "usd#bank" (hsums false) (hsums true)
  exact ⟨_, custody', hrun, hrun', Option.some_ne_none totals, hrel, hlogs⟩

end Walk

end Custodian
