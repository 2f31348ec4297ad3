import Custodian.Proofs.Accrual.Stream
import Mathlib.Data.List.Dedup
import Mathlib.Data.List.Sort

/-!
# The timeline of one asset

What a replay of one asset should come to, said without a replay: the distinct stamps of its
transfers cut the window into intervals; over each of them a fixed balance is held; every
interval adds its share to the fee and to the assets under custody (`Walk.timeline`).

`Walk.toOption_closing` says that a replay comes to that. It goes by induction on the
transfers, from any context on (`Walk.timelineFrom`): a transfer from the control point or
before it joins the balance of every interval, and one behind it first closes an interval.
-/

namespace Custodian

-- Powers are those of the core library, whatever else is in scope; for that a numeral as an
-- exponent has its type.
attribute [local instance(1100)] instPowNat

/-! ## Intervals -/

namespace Window

/-- The length of time from the start to the stop. -/
def span (w : Window) : Nat := (w.stop.toInt - w.start.toInt).toNat

/-- The intervals into which ascending instants cut a window. -/
def cut (w : Window) : List Int64 → List Window
  | [] => [w]
  | time :: times => ⟨w.start, time⟩ :: cut ⟨time, w.stop⟩ times

/-- No interval starts before the window does. -/
theorem start_le_of_mem_cut {start stop : Int64} {i : Window} {times : List Int64}
    (h : (start :: times).Pairwise (· < ·)) (hi : i ∈ cut ⟨start, stop⟩ times) :
    start ≤ i.start := by
  induction times generalizing start with
  | nil =>
    rw [List.mem_singleton.mp hi]
    exact Int64.le_refl _
  | cons time times ih =>
    rcases List.mem_cons.mp hi with rfl | hi
    · exact Int64.le_refl _
    · have hlt : start < time := (List.pairwise_cons.mp h).1 time List.mem_cons_self
      have hle : time ≤ i.start := ih (List.pairwise_cons.mp h).2 hi
      exact Int64.le_trans (Int64.le_of_lt hlt) hle

end Window

namespace Commits

variable {ts : Commits} {t : Transfer} {window : Window}
  {start stop time : Int64}

/-- The distinct stamps inside a window, ascending. -/
def moments (ts : Commits) (window : Window) : List Int64 :=
  ((ts.map Transfer.occurredAt).filter fun time =>
    window.start < time ∧ time < window.stop).dedup.mergeSort

theorem mem_moments :
    time ∈ ts.moments window ↔
      (∃ t ∈ ts, t.occurredAt = time) ∧ window.start < time ∧ time < window.stop := by
  rw [moments, List.mem_mergeSort, List.mem_dedup, List.mem_filter, List.mem_map,
    decide_eq_true_eq]

theorem pairwise_moments (ts : Commits) (window : Window) :
    (ts.moments window).Pairwise (· < ·) := by
  have hsorted : (ts.moments window).Pairwise (· ≤ ·) := by
    refine (List.pairwise_mergeSort ?_ ?_ _).imp fun h => of_decide_eq_true h
    · intro a b c hab hbc
      exact decide_eq_true (Int64.le_trans (of_decide_eq_true hab) (of_decide_eq_true hbc))
    · intro a b
      rw [Bool.or_eq_true, decide_eq_true_eq, decide_eq_true_eq]
      exact Int64.le_total a b
  have hnodup : (ts.moments window).Nodup :=
    (List.mergeSort_perm _ _).nodup_iff.mpr (List.nodup_dedup _)
  refine (hsorted.and hnodup).imp ?_
  rintro a b ⟨hle, hne⟩
  exact Int64.lt_of_le_of_ne hle hne

/-- A stamp from the start or before it does not count. -/
theorem moments_cons_of_le (h : t.occurredAt ≤ start) :
    moments (t :: ts) ⟨start, stop⟩ = ts.moments ⟨start, stop⟩ := by
  have hnot : ¬(start < t.occurredAt ∧ t.occurredAt < stop) :=
    fun hin => Int64.not_lt.mpr h hin.1
  unfold moments
  rw [List.map_cons, List.filter_cons_of_neg (by rwa [decide_eq_true_eq])]

/-- The first of ascending stamps is the first moment, and the others follow it. -/
theorem moments_cons_of_lt (h : start < t.occurredAt) (hstop : t.occurredAt < stop)
    (hafter : ∀ t' ∈ ts, t.occurredAt ≤ t'.occurredAt) :
    moments (t :: ts) ⟨start, stop⟩ = t.occurredAt :: moments (t :: ts) ⟨t.occurredAt, stop⟩ := by
  have : Std.Irrefl (· < · : Int64 → Int64 → Prop) := ⟨fun _ => Int64.lt_irrefl⟩
  have : Std.Antisymm (· < · : Int64 → Int64 → Prop) :=
    ⟨fun _ _ hab hba => absurd (Int64.lt_trans hab hba) Int64.lt_irrefl⟩
  have hfirst : ∀ time ∈ moments (t :: ts) ⟨t.occurredAt, stop⟩, t.occurredAt < time :=
    fun time htime => (mem_moments.mp htime).2.1
  refine List.Pairwise.eq_of_mem_iff (pairwise_moments _ _)
    (List.pairwise_cons.mpr ⟨hfirst, pairwise_moments _ _⟩) fun time => ?_
  rw [List.mem_cons, mem_moments, mem_moments]
  constructor
  · rintro ⟨⟨t', ht', rfl⟩, -, hlt⟩
    by_cases heq : t'.occurredAt = t.occurredAt
    · exact .inl heq
    · have hle : t.occurredAt ≤ t'.occurredAt := by
        rcases List.mem_cons.mp ht' with rfl | ht'
        · exact Int64.le_refl _
        · exact hafter t' ht'
      exact .inr ⟨⟨t', ht', rfl⟩, Int64.lt_of_le_of_ne hle (Ne.symm heq), hlt⟩
  · rintro (rfl | ⟨hsome, hlt, hstop'⟩)
    · exact ⟨⟨t, List.mem_cons_self, rfl⟩, h, hstop⟩
    · exact ⟨hsome, Int64.lt_trans h hlt, hstop'⟩

/-- The intervals between the distinct stamps inside a window, from its start to its stop. -/
def intervals (ts : Commits) (window : Window) : List Window := window.cut (ts.moments window)

theorem intervals_nil (window : Window) : intervals [] window = [window] := by
  unfold intervals moments
  rw [List.map_nil, List.filter_nil, List.dedup_nil, List.mergeSort_nil, Window.cut]

theorem start_le_of_mem_intervals {i : Window} (hi : i ∈ ts.intervals ⟨start, stop⟩) :
    start ≤ i.start := by
  refine Window.start_le_of_mem_cut (List.pairwise_cons.mpr ⟨fun time htime => ?_, ?_⟩) hi
  · exact (mem_moments.mp htime).2.1
  · exact pairwise_moments _ _

theorem intervals_ne_nil (ts : Commits) (window : Window) : ts.intervals window ≠ [] := by
  unfold intervals
  rcases ts.moments window with _ | ⟨time, times⟩
  · exact List.cons_ne_nil _ _
  · exact List.cons_ne_nil _ _

theorem intervals_cons_of_le (h : t.occurredAt ≤ start) :
    intervals (t :: ts) ⟨start, stop⟩ = ts.intervals ⟨start, stop⟩ := by
  rw [intervals, moments_cons_of_le h, ← intervals]

theorem intervals_cons_of_lt (h : start < t.occurredAt) (hstop : t.occurredAt < stop)
    (hafter : ∀ t' ∈ ts, t.occurredAt ≤ t'.occurredAt) :
    intervals (t :: ts) ⟨start, stop⟩ =
      ⟨start, t.occurredAt⟩ :: intervals (t :: ts) ⟨t.occurredAt, stop⟩ := by
  rw [intervals, moments_cons_of_lt h hstop hafter, Window.cut, ← intervals]

/-! ## Balances over intervals -/

/-- What an account with an opening balance holds from an instant on: the transfers stamped up
to it, added in commit order. -/
def heldFrom (ts : Commits) (account : String) (opening : Decimal) (time : Int64) :
    Option Decimal :=
  balanceFrom (ts.filter fun t => t.occurredAt ≤ time) account opening

variable {account : String} {opening : Decimal}

theorem heldFrom_cons_of_le (h : t.occurredAt ≤ time) :
    heldFrom (t :: ts) account opening time =
      (opening.add? (t.deltaFor account)).bind fun held => ts.heldFrom account held time := by
  unfold heldFrom
  rw [List.filter_cons, if_pos (decide_eq_true h), balanceFrom_cons]

theorem heldFrom_of_lt (h : ∀ t ∈ ts, time < t.occurredAt) :
    ts.heldFrom account opening time = some opening := by
  unfold heldFrom
  rw [List.filter_eq_nil_iff.mpr]
  · rfl
  · intro t ht
    rw [decide_eq_true_eq, Int64.not_le]
    exact h t ht

end Commits

/-! ## Shares of an interval -/

/-- What a balance held over an interval adds to the assets under custody of a window. -/
def Window.aucOver (window : Window) (held : Decimal) (i : Window) : Option Decimal := do
  held.mul? (← Decimal.ratio? i.span window.span)

/-- What a balance held over an interval adds to the fee. -/
def feeOver (fraction : Decimal) (period : Int64) (held : Decimal) (i : Window) :
    Option Decimal := do
  let share ← Decimal.ratio? i.span period.toInt.toNat
  (← fraction.mul? share).mul? held

/-- What several intervals add, left to right, each under the balance held from its start on. -/
def totalOver (held : Int64 → Option Decimal) (part : Decimal → Window → Option Decimal)
    (start : Decimal) (intervals : List Window) : Option Decimal :=
  intervals.foldlM (fun sum i => do sum.add? (← part (← held i.start) i)) start

section totalOver

variable {held held' : Int64 → Option Decimal} {part : Decimal → Window → Option Decimal}
  {start : Decimal} {i : Window} {intervals : List Window}

theorem totalOver_cons :
    totalOver held part start (i :: intervals) =
      (((held i.start).bind fun b => part b i).bind start.add?).bind fun sum =>
        totalOver held part sum intervals := by
  unfold totalOver
  rw [List.foldlM_cons]
  simp only [Option.bind_eq_bind, Option.bind_assoc]

theorem totalOver_singleton :
    totalOver held part start [i] =
      ((held i.start).bind fun b => part b i).bind start.add? := by
  rw [totalOver_cons]
  exact Option.bind_fun_some _

theorem totalOver_congr (h : ∀ i ∈ intervals, held i.start = held' i.start) :
    totalOver held part start intervals = totalOver held' part start intervals := by
  induction intervals generalizing start with
  | nil => rfl
  | cons i intervals ih =>
    have hrest : ∀ sum, totalOver held part sum intervals = totalOver held' part sum intervals :=
      fun sum => ih fun i' hi' => h i' (List.mem_cons_of_mem _ hi')
    rw [totalOver_cons, totalOver_cons, h i List.mem_cons_self]
    simp only [hrest]

/-- Where no balance is known there is no total. -/
theorem totalOver_eq_none (hne : intervals ≠ []) (h : ∀ i ∈ intervals, held i.start = none) :
    totalOver held part start intervals = none := by
  rcases intervals with _ | ⟨i, intervals⟩
  · exact absurd rfl hne
  · rw [totalOver_cons, h i List.mem_cons_self]
    rfl

end totalOver

/-! ## One settlement -/

@[simp] theorem toOption_bind {ε α β : Type} (x : Except ε α) (f : α → Except ε β) :
    (x >>= f).toOption = x.toOption.bind fun a => (f a).toOption := by
  cases x with
  | ok a => rfl
  | error e => rfl

@[simp] theorem toOption_orOverflow (operation : String) (d : Option Decimal) :
    (orOverflow operation d).toOption = d := by
  cases d with
  | some d => rfl
  | none => rfl

@[simp] theorem toOption_timeShare (elapsed total : Int64) :
    (timeShare elapsed total).toOption =
      Decimal.ratio? elapsed.toInt.toNat total.toInt.toNat := by
  unfold timeShare
  cases Decimal.ratio? elapsed.toInt.toNat total.toInt.toNat with
  | some d => rfl
  | none => rfl

namespace Context

variable {c : Context} {window : Window} {settleAt period : Int64} {fraction : Decimal}

/-- Two instants whose distance fits 64 bits have one. -/
theorem elapsedTo_of_lt (hlt : c.control < settleAt)
    (hspan : settleAt.toInt - c.control.toInt < 2 ^ (63 : Nat)) :
    ∃ elapsed, c.elapsedTo settleAt = .ok elapsed ∧
      elapsed.toInt = settleAt.toInt - c.control.toInt ∧ 0 ≤ elapsed := by
  rw [Int64.lt_iff_toInt_lt] at hlt
  have hminus : Time.minus? settleAt c.control =
      some (Int64.ofInt (settleAt.toInt - c.control.toInt)) := by
    unfold Time.minus?
    exact if_pos ⟨by omega, hspan⟩
  have hvalue := Time.minus?_eq_some_iff.mp hminus
  refine ⟨Int64.ofInt (settleAt.toInt - c.control.toInt), ?_, hvalue, ?_⟩
  · unfold elapsedTo
    rw [hminus]
  · rw [Int64.le_iff_toInt_le, Int64.toInt_zero, hvalue]
    omega

theorem toOption_accrueAuc {total elapsed : Int64} (htotal : 0 < total) (helapsed : 0 ≤ elapsed)
    (held : Decimal) :
    (c.accrueAuc total elapsed held).toOption = do
      let share ← Decimal.ratio? elapsed.toInt.toNat total.toInt.toNat
      let auc ← c.auc.add? (← held.mul? share)
      return { c with auc := auc } := by
  have hvalid : ¬(total ≤ 0 ∨ elapsed < 0) := by
    rw [not_or, Int64.not_le, Int64.not_lt]
    exact ⟨htotal, helapsed⟩
  unfold accrueAuc
  rw [if_neg hvalid]
  simp only [toOption_bind, toOption_timeShare, toOption_orOverflow]
  rfl

theorem toOption_accrueFee {elapsed : Int64} (hperiod : 0 < period)
    (hfraction : checkFraction fraction = .ok ()) (helapsed : c.elapsedTo settleAt = .ok elapsed)
    (hnonneg : 0 ≤ elapsed) :
    (c.accrueFee settleAt fraction period).toOption = do
      let share ← Decimal.ratio? elapsed.toInt.toNat period.toInt.toNat
      let fee ← c.fee.add? (← (← fraction.mul? share).mul? c.balance)
      return { c with fee := fee } := by
  unfold accrueFee accrueFeeOver
  rw [hfraction, helapsed, if_neg (Int64.not_le.mpr hperiod)]
  show (if elapsed < 0 then _ else _ : Except Error Context).toOption = _
  rw [if_neg (Int64.not_lt.mpr hnonneg)]
  simp only [toOption_bind, toOption_timeShare, toOption_orOverflow, Option.bind_assoc]
  rfl

/-- A settlement up to an instant behind the control point adds one share to each total. -/
theorem toOption_settle (hwindow : window.Valid) (hperiod : 0 < period)
    (hfraction : checkFraction fraction = .ok ()) (hlt : c.control < settleAt)
    (hspan : settleAt.toInt - c.control.toInt < 2 ^ (63 : Nat)) :
    (c.settle window settleAt fraction period).toOption =
      ((window.aucOver c.balance ⟨c.control, settleAt⟩).bind c.auc.add?).bind fun auc =>
        ((feeOver fraction period c.balance ⟨c.control, settleAt⟩).bind c.fee.add?).map fun fee =>
          ⟨fee, auc, settleAt, c.balance⟩ := by
  obtain ⟨length, hlength, htotal, hpos⟩ := Window.length_of_valid hwindow
  obtain ⟨elapsed, helapsed, hvalue, hnonneg⟩ := elapsedTo_of_lt hlt hspan
  unfold settle
  rw [if_neg (Int64.not_le.mpr hlt), helapsed, hlength]
  show (c.accrueAuc length elapsed c.balance >>= fun accrued =>
    accrued.accrueFee settleAt fraction period >>= fun charged =>
      pure (charged.advanceTo settleAt)).toOption = _
  rw [toOption_bind, toOption_accrueAuc hpos hnonneg, hvalue, htotal]
  simp only [Window.aucOver, feeOver, Window.span, Option.bind_eq_bind, Option.bind_assoc]
  refine congrArg _ (funext fun share => congrArg _ (funext fun accrued => congrArg _
    (funext fun auc => ?_)))
  have hfee := toOption_accrueFee (c := { c with auc := auc }) hperiod hfraction helapsed hnonneg
  show (Context.accrueFee { c with auc := auc } settleAt fraction period >>= fun charged =>
    pure (charged.advanceTo settleAt)).toOption = _
  rw [toOption_bind, hfee, hvalue]
  simp only [Option.bind_eq_bind, Option.map_eq_bind, Option.bind_assoc]
  rfl

end Context

/-! ## The timeline -/

namespace Walk

variable {w : Walk} {fraction : Decimal} {c : Context} {t : Transfer} {ts : Commits}

/-- The totals of an asset over the window: each interval between distinct stamps adds the
share of the balance held over it. -/
def timeline (w : Walk) (fraction : Decimal) (ts : Commits) : Option AssetCustody := do
  let held := ts.heldFrom w.account .zero
  let fee ← totalOver held (feeOver fraction w.config.custodyPeriod) .zero (ts.intervals w.window)
  let auc ← totalOver held w.window.aucOver .zero (ts.intervals w.window)
  return ⟨fee, auc⟩

/-- The totals that a context comes to by the timeline of the transfers that follow it. -/
def timelineFrom (w : Walk) (fraction : Decimal) (c : Context) (ts : Commits) :
    Option AssetCustody :=
  let total := fun part start =>
    totalOver (ts.heldFrom w.account c.balance) part start (ts.intervals ⟨c.control, w.window.stop⟩)
  (total (feeOver fraction w.config.custodyPeriod) c.fee).bind fun fee =>
    (total w.window.aucOver c.auc).map fun auc => ⟨fee, auc⟩

theorem timelineFrom_fresh :
    w.timelineFrom fraction (.fresh w.window.start) ts = w.timeline fraction ts := by
  unfold timelineFrom timeline
  simp only [Option.map_eq_bind]
  rfl

/-- A transfer from the control point or before it is held over every interval. -/
theorem timelineFrom_cons_of_le (h : t.occurredAt ≤ c.control) :
    w.timelineFrom fraction c (t :: ts) =
      (c.applyDelta (t.deltaFor w.account)).toOption.bind fun c' =>
        w.timelineFrom fraction c' ts := by
  have hheld : ∀ i ∈ ts.intervals ⟨c.control, w.window.stop⟩,
      Commits.heldFrom (t :: ts) w.account c.balance i.start =
        (c.balance.add? (t.deltaFor w.account)).bind fun held =>
          ts.heldFrom w.account held i.start := fun i hi =>
    Commits.heldFrom_cons_of_le (Int64.le_trans h (Commits.start_le_of_mem_intervals hi))
  unfold timelineFrom Context.applyDelta
  rw [Commits.intervals_cons_of_le h]
  rcases hadd : c.balance.add? (t.deltaFor w.account) with _ | held
  · have hnone : ∀ part start,
        totalOver (Commits.heldFrom (t :: ts) w.account c.balance) part start
          (ts.intervals ⟨c.control, w.window.stop⟩) = none := by
      intro part start
      refine totalOver_eq_none (Commits.intervals_ne_nil _ _) fun i hi => ?_
      rw [hheld i hi, hadd, Option.bind_none]
    simp only [hnone]
    rfl
  · have hsome : ∀ part start,
        totalOver (Commits.heldFrom (t :: ts) w.account c.balance) part start
            (ts.intervals ⟨c.control, w.window.stop⟩) =
          totalOver (ts.heldFrom w.account held) part start
            (ts.intervals ⟨c.control, w.window.stop⟩) := by
      intro part start
      exact totalOver_congr fun i hi => (hheld i hi).trans (by rw [hadd, Option.bind_some])
    simp only [hsome]
    rfl

/-- A transfer behind the control point first closes an interval. -/
theorem timelineFrom_cons_of_lt (hwindow : w.window.Valid) (hperiod : 0 < w.config.custodyPeriod)
    (hfraction : checkFraction fraction = .ok ()) (hstart : w.window.start ≤ c.control)
    (h : c.control < t.occurredAt) (hstop : t.occurredAt < w.window.stop)
    (hafter : ∀ t' ∈ ts, t.occurredAt ≤ t'.occurredAt) :
    w.timelineFrom fraction c (t :: ts) =
      (c.settle w.window t.occurredAt fraction w.config.custodyPeriod).toOption.bind fun c' =>
        w.timelineFrom fraction c' (t :: ts) := by
  have hheld : Commits.heldFrom (t :: ts) w.account c.balance c.control = some c.balance := by
    refine Commits.heldFrom_of_lt fun t' ht' => ?_
    rcases List.mem_cons.mp ht' with rfl | ht'
    · exact h
    · exact Int64.lt_of_lt_of_le h (hafter t' ht')
  have hspan : t.occurredAt.toInt - c.control.toInt < 2 ^ (63 : Nat) := by
    have hlength := hwindow.2
    rw [Int64.le_iff_toInt_le] at hstart
    rw [Int64.lt_iff_toInt_lt] at hstop
    omega
  have hfirst : ∀ part start,
      totalOver (Commits.heldFrom (t :: ts) w.account c.balance) part start
          (Commits.intervals (t :: ts) ⟨c.control, w.window.stop⟩) =
        ((part c.balance ⟨c.control, t.occurredAt⟩).bind start.add?).bind fun sum =>
          totalOver (Commits.heldFrom (t :: ts) w.account c.balance) part sum
            (Commits.intervals (t :: ts) ⟨t.occurredAt, w.window.stop⟩) := by
    intro part start
    rw [Commits.intervals_cons_of_lt h hstop hafter, totalOver_cons, hheld, Option.bind_some]
  rw [Context.toOption_settle hwindow hperiod hfraction h hspan]
  unfold timelineFrom
  simp only [hfirst]
  -- the two totals do not depend on each other, so either may be found first
  rcases (w.window.aucOver c.balance ⟨c.control, t.occurredAt⟩).bind c.auc.add? with _ | auc
  · exact Option.bind_fun_none _
  · rcases (feeOver fraction w.config.custodyPeriod c.balance
      ⟨c.control, t.occurredAt⟩).bind c.fee.add? with _ | fee
    · rfl
    · rfl

/-- Where no transfer follows, the last interval is the only one. -/
theorem timelineFrom_nil (hwindow : w.window.Valid) (hperiod : 0 < w.config.custodyPeriod)
    (hfraction : checkFraction fraction = .ok ()) (hstart : w.window.start ≤ c.control)
    (hstop : c.control < w.window.stop) :
    w.timelineFrom fraction c [] =
      (c.settle w.window w.window.stop fraction w.config.custodyPeriod).toOption.map
        Context.custody := by
  have hspan : w.window.stop.toInt - c.control.toInt < 2 ^ (63 : Nat) := by
    have hlength := hwindow.2
    rw [Int64.le_iff_toInt_le] at hstart
    omega
  have honly : ∀ part start,
      totalOver (Commits.heldFrom [] w.account c.balance) part start
          (Commits.intervals [] ⟨c.control, w.window.stop⟩) =
        (part c.balance ⟨c.control, w.window.stop⟩).bind start.add? := by
    intro part start
    rw [Commits.intervals_nil, totalOver_singleton]
    rfl
  rw [Context.toOption_settle hwindow hperiod hfraction hstop hspan]
  unfold timelineFrom
  simp only [honly]
  rcases (w.window.aucOver c.balance ⟨c.control, w.window.stop⟩).bind c.auc.add? with _ | auc
  · exact Option.bind_fun_none _
  · rcases (feeOver fraction w.config.custodyPeriod c.balance
      ⟨c.control, w.window.stop⟩).bind c.fee.add? with _ | fee
    · rfl
    · rfl

/-- A replay from a context on comes to the timeline of what follows. -/
theorem toOption_advance (hwindow : w.window.Valid) (hperiod : 0 < w.config.custodyPeriod)
    (hfraction : checkFraction fraction = .ok ()) (hstart : w.window.start ≤ c.control)
    (hstop : c.control < w.window.stop)
    (hordered : ts.Pairwise fun a b => a.occurredAt ≤ b.occurredAt)
    (hbefore : ∀ t ∈ ts, t.occurredAt < w.window.stop) :
    (w.advance fraction c ts >>= fun c =>
        c.settle w.window w.window.stop fraction w.config.custodyPeriod).toOption.map
        Context.custody =
      w.timelineFrom fraction c ts := by
  induction ts generalizing c with
  | nil =>
    rw [timelineFrom_nil hwindow hperiod hfraction hstart hstop]
    rfl
  | cons t ts ih =>
    have hafter : ∀ t' ∈ ts, t.occurredAt ≤ t'.occurredAt := (List.pairwise_cons.mp hordered).1
    have ht : t.occurredAt < w.window.stop := hbefore t List.mem_cons_self
    -- once the control point has reached the transfer, it only moves the balance
    have hreached : ∀ c : Context, w.window.start ≤ c.control → c.control < w.window.stop →
        t.occurredAt ≤ c.control →
        (w.advance fraction c (t :: ts) >>= fun c =>
            c.settle w.window w.window.stop fraction w.config.custodyPeriod).toOption.map
            Context.custody =
          w.timelineFrom fraction c (t :: ts) := by
      intro c hstart hstop hle
      rw [timelineFrom_cons_of_le hle, advance_cons, step_of_le hle]
      rcases happlied : c.applyDelta (t.deltaFor w.account) with e | c'
      · rfl
      · have hcontrol : c'.control = c.control := by rw [(Context.applyDelta_eq_ok happlied).2]
        exact ih (hcontrol ▸ hstart) (hcontrol ▸ hstop) (List.pairwise_cons.mp hordered).2
          fun t' ht' => hbefore t' (List.mem_cons_of_mem _ ht')
    by_cases hle : t.occurredAt ≤ c.control
    · exact hreached c hstart hstop hle
    · have hlt : c.control < t.occurredAt := Int64.not_le.mp hle
      rw [timelineFrom_cons_of_lt hwindow hperiod hfraction hstart hlt ht hafter, advance_cons]
      unfold step
      rcases hsettled : c.settle w.window t.occurredAt fraction w.config.custodyPeriod with e | c'
      · rfl
      · obtain ⟨-, hforward, hto, hmoved⟩ := Context.frame_of_settle hsettled
        have hcontrol : c'.control = t.occurredAt := hmoved (Int64.lt_of_lt_of_le hlt hto)
        have h := hreached c' (Int64.le_trans hstart hforward) (hcontrol ▸ ht) hto
        rw [advance_cons, step_of_le hto] at h
        exact h

/-- A replay of an asset over the window comes to its timeline. -/
theorem toOption_closing (hwindow : w.window.Valid) (hperiod : 0 < w.config.custodyPeriod)
    (hfraction : checkFraction fraction = .ok ())
    (hordered : ts.Pairwise fun a b => a.occurredAt ≤ b.occurredAt)
    (hbefore : ∀ t ∈ ts, t.occurredAt < w.window.stop) :
    (w.closing fraction ts).toOption.map Context.custody = w.timeline fraction ts := by
  rw [← timelineFrom_fresh]
  exact toOption_advance hwindow hperiod hfraction (Int64.le_refl _) hwindow.1 hordered hbefore

end Walk

end Custodian
