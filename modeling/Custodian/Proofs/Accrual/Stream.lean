import Custodian.Proofs.Accrual.Settlement
import Custodian.Proofs.Ledger.CommitOrder

/-!
# The transfers of one asset, one after another

Within a walk each asset is replayed on its own: `Walk.step` is what one of its transfers does
to its context, and `Walk.accrual` the context after several of them, from nothing. It is what
every other account of a replay is measured against.

* the control point never goes back and reaches every stamp (`reach_of_advance`);
* the balance is the plain sum of the transfers (`balance_of_accrual`);
* transfers from before the window only move the balance (`accrual_of_before`).
-/

namespace Custodian

namespace Walk

variable {w : Walk} {fraction : Decimal} {c c' : Context} {t : Transfer} {ts ts' : Commits}

/-- What a transfer does to the context of its asset: it settles up to its stamp and moves
the balance. -/
def step (w : Walk) (fraction : Decimal) (c : Context) (t : Transfer) : Except Error Context := do
  let settled ← c.settle w.window t.occurredAt fraction w.config.custodyPeriod
  settled.applyDelta (t.deltaFor w.account)

/-- What several transfers of an asset do to its context. -/
def advance (w : Walk) (fraction : Decimal) (c : Context) (ts : Commits) : Except Error Context :=
  ts.foldlM (w.step fraction) c

/-- The context after several transfers, nothing being held or accrued at first. -/
def accrual (w : Walk) (fraction : Decimal) (ts : Commits) : Except Error Context :=
  w.advance fraction (.fresh w.window.start) ts

/-- The context after all transfers of an asset, settled up to the end of the window. -/
def closing (w : Walk) (fraction : Decimal) (ts : Commits) : Except Error Context := do
  let c ← w.accrual fraction ts
  c.settle w.window w.window.stop fraction w.config.custodyPeriod

theorem advance_cons :
    w.advance fraction c (t :: ts) = w.step fraction c t >>= fun c' => w.advance fraction c' ts :=
  List.foldlM_cons

theorem advance_append :
    w.advance fraction c (ts ++ ts') =
      w.advance fraction c ts >>= fun c' => w.advance fraction c' ts' := List.foldlM_append

theorem accrual_append :
    w.accrual fraction (ts ++ ts') =
      w.accrual fraction ts >>= fun c => w.advance fraction c ts' := advance_append

theorem accrual_concat :
    w.accrual fraction (ts ++ [t]) = w.accrual fraction ts >>= fun c => w.step fraction c t := by
  rw [accrual_append]
  refine congrArg _ (funext fun c => ?_)
  rw [advance_cons]
  cases w.step fraction c t with
  | ok c' => rfl
  | error e => rfl

/-! ## One step -/

theorem step_eq_ok_iff :
    w.step fraction c t = .ok c' ↔
      ∃ settled, c.settle w.window t.occurredAt fraction w.config.custodyPeriod = .ok settled ∧
        settled.applyDelta (t.deltaFor w.account) = .ok c' := except_bind_eq_ok_iff

/-- A step fails, if at all, for reasons of its asset. -/
theorem failsScoped_step (hwindow : w.window.Valid) (hperiod : 0 < w.config.custodyPeriod) :
    FailsScoped (w.step fraction c t) :=
  (Context.failsScoped_settle hwindow hperiod).bind fun _ _ => Context.failsScoped_applyDelta

/-- A transfer from before the control point only moves the balance. -/
theorem step_of_le (h : t.occurredAt ≤ c.control) :
    w.step fraction c t = c.applyDelta (t.deltaFor w.account) := by
  unfold step
  rw [Context.settle_of_le h]
  rfl

/-! ## Control points -/

/-- The control point has reached every stamp, and stands at one of them unless it has not
moved. -/
theorem reach_of_advance (h : w.advance fraction c ts = .ok c') :
    c.control ≤ c'.control ∧ (∀ t ∈ ts, t.occurredAt ≤ c'.control) ∧
      (c'.control = c.control ∨ ∃ t ∈ ts, c'.control = t.occurredAt) := by
  induction ts generalizing c with
  | nil =>
    cases h
    exact ⟨Int64.le_refl _, fun t ht => (nomatch ht), .inl rfl⟩
  | cons t ts ih =>
    rw [advance_cons] at h
    obtain ⟨next, hnext, h⟩ := except_bind_eq_ok_iff.mp h
    obtain ⟨hle, hreach, hat⟩ := ih h
    obtain ⟨settled, hsettled, happlied⟩ := step_eq_ok_iff.mp hnext
    obtain ⟨-, hforward, hstamp, hmoved⟩ := Context.frame_of_settle hsettled
    have hcontrol : next.control = settled.control := by
      rw [(Context.applyDelta_eq_ok happlied).2]
    rw [← hcontrol] at hforward hstamp hmoved
    refine ⟨Int64.le_trans hforward hle, fun t' ht' => ?_, ?_⟩
    · rcases List.mem_cons.mp ht' with rfl | ht'
      · exact Int64.le_trans hstamp hle
      · exact hreach t' ht'
    · rcases hat with hat | ⟨t', ht', hat⟩
      · by_cases heq : next.control = c.control
        · exact .inl (hat.trans heq)
        · have hlt : c.control < next.control := Int64.lt_of_le_of_ne hforward (Ne.symm heq)
          exact .inr ⟨t, List.mem_cons_self, hat.trans (hmoved hlt)⟩
      · exact .inr ⟨t', List.mem_cons_of_mem _ ht', hat⟩

/-! ## Balances -/

theorem balance_of_advance (h : w.advance fraction c ts = .ok c') :
    ts.balanceFrom w.account c.balance = some c'.balance := by
  induction ts generalizing c with
  | nil =>
    cases h
    rfl
  | cons t ts ih =>
    rw [advance_cons] at h
    obtain ⟨next, hnext, h⟩ := except_bind_eq_ok_iff.mp h
    obtain ⟨settled, hsettled, happlied⟩ := step_eq_ok_iff.mp hnext
    have hadd := (Context.applyDelta_eq_ok happlied).1
    rw [(Context.frame_of_settle hsettled).1] at hadd
    rw [Commits.balanceFrom_cons, hadd]
    exact ih h

/-- Replaying transfers leaves the balance that they add up to. -/
theorem balance_of_accrual (h : w.accrual fraction ts = .ok c) :
    ts.balance w.account = some c.balance := balance_of_advance h

/-- Transfers from before the control point that add up only move the balance. -/
theorem advance_of_before (hbefore : ∀ t ∈ ts, t.occurredAt ≤ c.control) {held : Decimal}
    (hheld : ts.balanceFrom w.account c.balance = some held) :
    w.advance fraction c ts = .ok { c with balance := held } := by
  induction ts generalizing c with
  | nil =>
    cases hheld
    rfl
  | cons t ts ih =>
    rw [Commits.balanceFrom_cons, Option.bind_eq_some_iff] at hheld
    obtain ⟨next, hnext, hheld⟩ := hheld
    have hstep : w.step fraction c t = .ok { c with balance := next } := by
      rw [step_of_le (hbefore t List.mem_cons_self), Context.applyDelta, hnext]
    rw [advance_cons, hstep]
    have h := ih (c := { c with balance := next })
      (fun t' ht' => hbefore t' (List.mem_cons_of_mem _ ht')) hheld
    exact h

/-- Transfers from before the window that add up only establish a balance. -/
theorem accrual_of_before (hbefore : ∀ t ∈ ts, t.occurredAt ≤ w.window.start) {held : Decimal}
    (hheld : ts.balance w.account = some held) :
    w.accrual fraction ts = .ok (.withBalance w.window.start held) :=
  advance_of_before hbefore hheld

end Walk

end Custodian
