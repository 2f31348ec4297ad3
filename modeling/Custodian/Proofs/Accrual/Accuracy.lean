import Custodian.Proofs.Accrual.Timeline
import Custodian.Proofs.Decimal.Ratio
import Mathlib.Algebra.BigOperators.Ring.List

/-!
# How accurate the totals of an asset are

The only quotients of a replay are shares of time, and each of them is rounded to eight digits
after the point. Where no sum and no product has to be rounded (`Walk.ExactFrom`), the totals are
the balances over the intervals times these shares (`Walk.closing_of_exact`), and so they miss the
integral of the balance over the window by at most half a unit of the eighth digit for each
interval and each unit held in it (`Commits.abs_overIntervals_sub_le`).
-/

namespace Custodian

-- Powers of integers are those of the core library, whatever else is in scope; for that a
-- numeral as an exponent has its type.
attribute [local instance(1100)] instPowNat

/-! ## The fraction -/

/-- A fraction that is accepted is positive. -/
theorem value_pos_of_checkFraction {fraction : Decimal} (h : checkFraction fraction = .ok ()) :
    0 < fraction.value := by
  have hpos := Decimal.value_lt_iff.mpr (checkFraction_eq_ok_iff.mp h).1
  rwa [Decimal.value_zero] at hpos

/-! ## What an account holds -/

/-- What an account receives by a transfer, less what it sends. -/
def Transfer.movement (t : Transfer) (account : String) : ℚ :=
  (if t.destination = account then t.amount.value else 0) -
    if t.source = account then t.amount.value else 0

theorem Transfer.value_deltaFor (t : Transfer) (account : String) :
    (t.deltaFor account).value = t.movement account := by
  unfold deltaFor movement
  by_cases hsource : t.source = account
  · by_cases hdestination : t.destination = account
    · rw [if_pos hsource, if_pos hdestination, if_pos hdestination, if_pos hsource,
        Decimal.value_cancelled, sub_self]
    · rw [if_pos hsource, if_neg hdestination, if_neg hdestination, if_pos hsource,
        Decimal.value_opposite, zero_sub]
  · by_cases hdestination : t.destination = account
    · rw [if_neg hsource, if_pos hdestination, if_pos hdestination, if_neg hsource, sub_zero]
    · rw [if_neg hsource, if_neg hdestination, if_neg hdestination, if_neg hsource, sub_zero,
        Decimal.value_zero]

namespace Window

variable {start stop : Int64} {times : List Int64} {i : Window}

/-- The share of an interval in a length of time, rounded to eight digits after the point. -/
def shareOf (i : Window) (length : Nat) : ℚ :=
  Decimal.roundHalfUp (i.span * 10 ^ Decimal.ratioScale) length / 10 ^ Decimal.ratioScale

theorem span_of_valid {w : Window} (h : w.Valid) : 0 < w.span ∧ w.span < 2 ^ (63 : Nat) := by
  have hlt := Int64.lt_iff_toInt_lt.mp h.1
  have hmax := h.2
  unfold span
  omega

/-- No interval is empty, or leaves the window. -/
theorem within_of_mem_cut (hordered : (start :: times).Pairwise (· < ·)) (hlt : start < stop)
    (hbefore : ∀ time ∈ times, time < stop) (hi : i ∈ cut ⟨start, stop⟩ times) :
    start ≤ i.start ∧ i.start < i.stop ∧ i.stop ≤ stop := by
  induction times generalizing start with
  | nil =>
    rw [List.mem_singleton.mp hi]
    exact ⟨Int64.le_refl _, hlt, Int64.le_refl _⟩
  | cons time times ih =>
    have hfirst : start < time := (List.pairwise_cons.mp hordered).1 time List.mem_cons_self
    have htime : time < stop := hbefore time List.mem_cons_self
    rcases List.mem_cons.mp hi with rfl | hi
    · exact ⟨Int64.le_refl _, hfirst, Int64.le_of_lt htime⟩
    · obtain ⟨hstart, hrest⟩ := ih (List.pairwise_cons.mp hordered).2 htime
        (fun time' h => hbefore time' (List.mem_cons_of_mem _ h)) hi
      exact ⟨Int64.le_trans (Int64.le_of_lt hfirst) hstart, hrest⟩

end Window

namespace Commits

variable {ts : Commits} {t : Transfer} {account : String} {start stop time : Int64}
  {opening : ℚ} {part part' : ℚ → Window → ℚ} {window i : Window}

/-- What an account holds at an instant: what it has received by then, less what it has sent. -/
def holding (ts : Commits) (account : String) (time : Int64) : ℚ :=
  ((ts.filter fun t => t.occurredAt ≤ time).map fun t => t.movement account).sum

theorem holding_cons_of_le (h : t.occurredAt ≤ time) :
    holding (t :: ts) account time = t.movement account + ts.holding account time := by
  unfold holding
  rw [List.filter_cons, if_pos (decide_eq_true h), List.map_cons, List.sum_cons]

theorem holding_of_lt (h : ∀ t ∈ ts, time < t.occurredAt) : ts.holding account time = 0 := by
  unfold holding
  rw [List.filter_eq_nil_iff.mpr]
  · rfl
  · intro t ht
    rw [decide_eq_true_eq, Int64.not_le]
    exact h t ht

/-- The sum, over the intervals between distinct stamps, of a part of what is held over each,
by an account that holds something already. -/
def overIntervals (ts : Commits) (account : String) (part : ℚ → Window → ℚ) (window : Window)
    (opening : ℚ) : ℚ :=
  ((ts.intervals window).map fun i => part (opening + ts.holding account i.start) i).sum

theorem overIntervals_nil :
    overIntervals [] account part window opening = part opening window := by
  unfold overIntervals
  rw [intervals_nil, List.map_singleton, List.sum_singleton, holding_of_lt (List.forall_mem_nil _),
    add_zero]

theorem overIntervals_cons_of_le (h : t.occurredAt ≤ start) :
    overIntervals (t :: ts) account part ⟨start, stop⟩ opening =
      ts.overIntervals account part ⟨start, stop⟩ (opening + t.movement account) := by
  unfold overIntervals
  rw [intervals_cons_of_le h]
  refine congrArg List.sum (List.map_congr_left fun i hi => ?_)
  rw [holding_cons_of_le (Int64.le_trans h (start_le_of_mem_intervals hi)), add_assoc]

theorem overIntervals_cons_of_lt (h : start < t.occurredAt) (hstop : t.occurredAt < stop)
    (hafter : ∀ t' ∈ ts, t.occurredAt ≤ t'.occurredAt) :
    overIntervals (t :: ts) account part ⟨start, stop⟩ opening =
      part opening ⟨start, t.occurredAt⟩ +
        overIntervals (t :: ts) account part ⟨t.occurredAt, stop⟩ opening := by
  have hfirst : holding (t :: ts) account start = 0 := by
    refine holding_of_lt fun t' ht' => ?_
    rcases List.mem_cons.mp ht' with rfl | ht'
    · exact h
    · exact Int64.lt_of_lt_of_le h (hafter t' ht')
  unfold overIntervals
  rw [intervals_cons_of_lt h hstop hafter, List.map_cons, List.sum_cons, hfirst, add_zero]

/-- No interval is empty, or leaves the window. -/
theorem within_of_mem_intervals (hwindow : window.start < window.stop)
    (hi : i ∈ ts.intervals window) :
    window.start ≤ i.start ∧ i.start < i.stop ∧ i.stop ≤ window.stop := by
  have hordered : (window.start :: ts.moments window).Pairwise (· < ·) :=
    List.pairwise_cons.mpr ⟨fun time htime => (mem_moments.mp htime).2.1, pairwise_moments ts window⟩
  exact Window.within_of_mem_cut hordered hwindow (fun time htime => (mem_moments.mp htime).2.2) hi

theorem overIntervals_const_mul (factor : ℚ) :
    ts.overIntervals account (fun held i => factor * part held i) window opening =
      factor * ts.overIntervals account part window opening := by
  unfold overIntervals
  rw [List.sum_map_mul_left]

/-- Sums over intervals differ by no more than their parts do. -/
theorem abs_overIntervals_sub_le {error : ℚ → Window → ℚ}
    (h : ∀ i ∈ ts.intervals window, ∀ held, |part held i - part' held i| ≤ error held i) :
    |ts.overIntervals account part window opening - ts.overIntervals account part' window opening| ≤
      ts.overIntervals account error window opening := by
  unfold overIntervals
  generalize ts.intervals window = intervals at h ⊢
  induction intervals with
  | nil => simp
  | cons i intervals ih =>
    rw [List.map_cons, List.map_cons, List.map_cons, List.sum_cons, List.sum_cons, List.sum_cons,
      add_sub_add_comm]
    exact (abs_add_le _ _).trans (add_le_add (h i List.mem_cons_self _)
      (ih fun i' hi' => h i' (List.mem_cons_of_mem _ hi')))

end Commits

/-! ## Exact settlements -/

theorem eq_ok_of_toOption {ε α : Type} {x : Except ε α} {a : α} (h : x.toOption = some a) :
    x = .ok a := by
  rcases x with e | a'
  · cases h
  · cases h
    rfl

namespace Context

variable {c : Context} {window : Window} {settleAt period : Int64} {fraction : Decimal}

/-- No product and no sum that a settlement forms has to be rounded. -/
structure SettlesExactly (c : Context) (window : Window) (settleAt : Int64) (fraction : Decimal)
    (period : Int64) : Prop where
  auc : ∀ share ∈ Decimal.ratio? (Window.span ⟨c.control, settleAt⟩) window.span,
    c.balance.MulsExactly share ∧
      ∀ accrued ∈ c.balance.mul? share, c.auc.AddsExactly accrued
  fee : ∀ share ∈ Decimal.ratio? (Window.span ⟨c.control, settleAt⟩) period.toInt.toNat,
    fraction.MulsExactly share ∧ ∀ rate ∈ fraction.mul? share,
      rate.MulsExactly c.balance ∧ ∀ charged ∈ rate.mul? c.balance, c.fee.AddsExactly charged

instance : Decidable (c.SettlesExactly window settleAt fraction period) :=
  decidable_of_iff' _ ⟨fun h => And.intro h.auc h.fee, fun h => ⟨h.1, h.2⟩⟩

/-- A share of a length of time is found, and has the value that it should have. -/
theorem ratio?_span {i : Window} {length : Nat} (hspan : i.span < 2 ^ (63 : Nat))
    (hpos : 0 < length) (hlength : length < 2 ^ (63 : Nat)) :
    ∃ share, Decimal.ratio? i.span length = some share ∧ share.value = i.shareOf length := by
  obtain ⟨share, hshare, -⟩ := Decimal.ratio?_eq_some hspan hpos hlength
  exact ⟨share, hshare, Decimal.value_of_ratio? hspan hpos hlength hshare⟩

/-- An exact settlement succeeds, and adds the balance times a share of time to each total. -/
theorem settle_of_exact (hwindow : window.Valid) (hperiod : 0 < period)
    (hfraction : checkFraction fraction = .ok ()) (hlt : c.control < settleAt)
    (hspan : settleAt.toInt - c.control.toInt < 2 ^ (63 : Nat))
    (h : c.SettlesExactly window settleAt fraction period) :
    ∃ c', c.settle window settleAt fraction period = .ok c' ∧ c'.control = settleAt ∧
      c'.balance = c.balance ∧
      c'.auc.value =
        c.auc.value + c.balance.value * Window.shareOf ⟨c.control, settleAt⟩ window.span ∧
      c'.fee.value = c.fee.value +
        fraction.value * Window.shareOf ⟨c.control, settleAt⟩ period.toInt.toNat *
          c.balance.value := by
  have hinterval : Window.span ⟨c.control, settleAt⟩ < 2 ^ (63 : Nat) := by
    show (settleAt.toInt - c.control.toInt).toNat < 2 ^ (63 : Nat)
    omega
  have hlength := Window.span_of_valid hwindow
  have hperiod' := toNat_of_pos hperiod
  obtain ⟨share, hshare, hvalue⟩ := ratio?_span hinterval hlength.1 hlength.2
  obtain ⟨rate, hrate, hratevalue⟩ := ratio?_span hinterval hperiod'.1 hperiod'.2
  obtain ⟨haccrued, hauc⟩ := h.auc share hshare
  obtain ⟨hcharge, hcharged⟩ := h.fee rate hrate
  obtain ⟨accrued, haccrued?, haccrued⟩ := haccrued.mul?
  obtain ⟨auc, hauc?, hauc⟩ := (hauc accrued haccrued?).add?
  obtain ⟨charge, hcharge?, hcharge⟩ := hcharge.mul?
  obtain ⟨hcharged, hfee⟩ := hcharged charge hcharge?
  obtain ⟨charged, hcharged?, hcharged⟩ := hcharged.mul?
  obtain ⟨fee, hfee?, hfee⟩ := (hfee charged hcharged?).add?
  have hauc' : (window.aucOver c.balance ⟨c.control, settleAt⟩).bind c.auc.add? = some auc := by
    unfold Window.aucOver
    rw [hshare]
    show (c.balance.mul? share).bind _ = _
    rw [haccrued?]
    exact hauc?
  have hfee' : (feeOver fraction period c.balance ⟨c.control, settleAt⟩).bind c.fee.add? =
      some fee := by
    unfold feeOver
    rw [hrate]
    show ((fraction.mul? rate).bind fun charge => charge.mul? c.balance).bind _ = _
    rw [hcharge?, Option.bind_some, hcharged?]
    exact hfee?
  have hsettled := toOption_settle hwindow hperiod hfraction hlt hspan
  rw [hauc', hfee'] at hsettled
  refine ⟨⟨fee, auc, settleAt, c.balance⟩, eq_ok_of_toOption hsettled, rfl, rfl, ?_, ?_⟩
  · rw [hauc, haccrued, hvalue]
  · rw [hfee, hcharged, hcharge, hratevalue]

end Context

/-! ## Exact replays -/

namespace Walk

variable {w : Walk} {fraction : Decimal} {c : Context} {t : Transfer} {ts : Commits}

/-- No product and no sum that a replay forms from a context on has to be rounded. -/
def ExactFrom (w : Walk) (fraction : Decimal) (c : Context) : Commits → Prop
  | [] =>
    c.control < w.window.stop →
      c.SettlesExactly w.window w.window.stop fraction w.config.custodyPeriod
  | t :: ts =>
    (c.control < t.occurredAt →
      c.SettlesExactly w.window t.occurredAt fraction w.config.custodyPeriod) ∧
    ∀ settled ∈ (c.settle w.window t.occurredAt fraction w.config.custodyPeriod).toOption,
      settled.balance.AddsExactly (t.deltaFor w.account) ∧
        ∀ next ∈ (settled.applyDelta (t.deltaFor w.account)).toOption,
          w.ExactFrom fraction next ts

instance decidableExactFrom :
    ∀ (ts : Commits) (c : Context), Decidable (w.ExactFrom fraction c ts)
  | [], c => inferInstanceAs (Decidable (c.control < w.window.stop → _))
  | t :: ts, c =>
    have := decidableExactFrom ts
    inferInstanceAs (Decidable ((c.control < t.occurredAt → _) ∧ ∀ settled ∈ _, _))

/-- The part of the assets under custody that is accrued over an interval. -/
def aucPart (w : Walk) (held : ℚ) (i : Window) : ℚ := held * i.shareOf w.window.span

/-- The part of the fee that is accrued over an interval. -/
def feePart (w : Walk) (fraction : Decimal) (held : ℚ) (i : Window) : ℚ :=
  fraction.value * i.shareOf w.config.custodyPeriod.toInt.toNat * held

/-- An exact replay from a context on succeeds, and adds to each total the parts of the intervals
that follow. -/
theorem advance_of_exact (hwindow : w.window.Valid) (hperiod : 0 < w.config.custodyPeriod)
    (hfraction : checkFraction fraction = .ok ()) (hstart : w.window.start ≤ c.control)
    (hstop : c.control < w.window.stop)
    (hordered : ts.Pairwise fun a b => a.occurredAt ≤ b.occurredAt)
    (hbefore : ∀ t ∈ ts, t.occurredAt < w.window.stop) (hexact : w.ExactFrom fraction c ts) :
    ∃ c', (w.advance fraction c ts >>= fun c =>
        c.settle w.window w.window.stop fraction w.config.custodyPeriod) = .ok c' ∧
      c'.auc.value = c.auc.value +
        ts.overIntervals w.account w.aucPart ⟨c.control, w.window.stop⟩ c.balance.value ∧
      c'.fee.value = c.fee.value +
        ts.overIntervals w.account (w.feePart fraction) ⟨c.control, w.window.stop⟩
          c.balance.value := by
  have hlength := hwindow.2
  induction ts generalizing c with
  | nil =>
    rw [Int64.le_iff_toInt_le] at hstart
    obtain ⟨c', hsettled, -, -, hauc, hfee⟩ :=
      Context.settle_of_exact hwindow hperiod hfraction hstop (by omega) (hexact hstop)
    rw [Commits.overIntervals_nil, Commits.overIntervals_nil]
    exact ⟨c', hsettled, hauc, hfee⟩
  | cons t ts ih =>
    have hafter : ∀ t' ∈ ts, t.occurredAt ≤ t'.occurredAt := (List.pairwise_cons.mp hordered).1
    have ht : t.occurredAt < w.window.stop := hbefore t List.mem_cons_self
    -- once the control point has reached the transfer, it only moves the balance
    have hreached : ∀ c : Context, w.window.start ≤ c.control → c.control < w.window.stop →
        t.occurredAt ≤ c.control →
        (c.balance.AddsExactly (t.deltaFor w.account) ∧
          ∀ next ∈ (c.applyDelta (t.deltaFor w.account)).toOption,
            w.ExactFrom fraction next ts) →
        ∃ c', (w.advance fraction c (t :: ts) >>= fun c =>
            c.settle w.window w.window.stop fraction w.config.custodyPeriod) = .ok c' ∧
          c'.auc.value = c.auc.value + Commits.overIntervals (t :: ts) w.account w.aucPart
            ⟨c.control, w.window.stop⟩ c.balance.value ∧
          c'.fee.value = c.fee.value + Commits.overIntervals (t :: ts) w.account
            (w.feePart fraction) ⟨c.control, w.window.stop⟩ c.balance.value := by
      rintro c hstart hstop hle ⟨hsum, hnext⟩
      obtain ⟨balance, hadd, hbalance⟩ := hsum.add?
      have happlied : c.applyDelta (t.deltaFor w.account) = .ok { c with balance := balance } := by
        unfold Context.applyDelta
        rw [hadd]
      rw [Transfer.value_deltaFor] at hbalance
      rw [advance_cons, step_of_le hle, happlied, Commits.overIntervals_cons_of_le hle,
        Commits.overIntervals_cons_of_le hle, ← hbalance]
      exact ih (c := { c with balance := balance }) hstart hstop (List.pairwise_cons.mp hordered).2
        (fun t' ht' => hbefore t' (List.mem_cons_of_mem _ ht')) (hnext _ (congrArg Except.toOption happlied))
    obtain ⟨hsettles, hrest⟩ := hexact
    by_cases hle : t.occurredAt ≤ c.control
    · exact hreached c hstart hstop hle
        (hrest c (congrArg Except.toOption (Context.settle_of_le hle)))
    · have hlt : c.control < t.occurredAt := Int64.not_le.mp hle
      have hspan : t.occurredAt.toInt - c.control.toInt < 2 ^ (63 : Nat) := by
        rw [Int64.le_iff_toInt_le] at hstart
        rw [Int64.lt_iff_toInt_lt] at ht
        omega
      obtain ⟨settled, hsettled, hcontrol, hbalance, hauc, hfee⟩ :=
        Context.settle_of_exact hwindow hperiod hfraction hlt hspan (hsettles hlt)
      have hreach : t.occurredAt ≤ settled.control := Int64.le_of_eq hcontrol.symm
      obtain ⟨c', hclosed, hauc', hfee'⟩ := hreached settled
        (hcontrol ▸ Int64.le_trans hstart (Int64.le_of_lt hlt)) (hcontrol ▸ ht) hreach
        (hrest settled (congrArg Except.toOption hsettled))
      rw [advance_cons, step_of_le hreach] at hclosed
      refine ⟨c', ?_, ?_, ?_⟩
      · rw [advance_cons]
        unfold step
        rw [hsettled]
        exact hclosed
      · rw [hauc', hauc, hcontrol, hbalance, Commits.overIntervals_cons_of_lt hlt ht hafter, aucPart,
          add_assoc]
      · rw [hfee', hfee, hcontrol, hbalance, Commits.overIntervals_cons_of_lt hlt ht hafter, feePart,
          add_assoc]

/-- An exact replay of an asset over the window succeeds, and comes to the parts of all
intervals. -/
theorem closing_of_exact (hwindow : w.window.Valid) (hperiod : 0 < w.config.custodyPeriod)
    (hfraction : checkFraction fraction = .ok ())
    (hordered : ts.Pairwise fun a b => a.occurredAt ≤ b.occurredAt)
    (hbefore : ∀ t ∈ ts, t.occurredAt < w.window.stop)
    (hexact : w.ExactFrom fraction (.fresh w.window.start) ts) :
    ∃ c, w.closing fraction ts = .ok c ∧
      c.auc.value = ts.overIntervals w.account w.aucPart w.window 0 ∧
      c.fee.value = ts.overIntervals w.account (w.feePart fraction) w.window 0 := by
  obtain ⟨c, hclosing, hauc, hfee⟩ := advance_of_exact (c := .fresh w.window.start) hwindow hperiod
    hfraction (Int64.le_refl _) hwindow.1 hordered hbefore hexact
  refine ⟨c, hclosing, ?_, ?_⟩
  · rw [hauc]
    show Decimal.zero.value + ts.overIntervals w.account w.aucPart w.window Decimal.zero.value = _
    rw [Decimal.value_zero, zero_add]
  · rw [hfee]
    show Decimal.zero.value +
      ts.overIntervals w.account (w.feePart fraction) w.window Decimal.zero.value = _
    rw [Decimal.value_zero, zero_add]

end Walk

/-! ## Against the integral of the balance -/

namespace Commits

variable (ts : Commits) (account : String) {window : Window} {length : Nat}

/-- The balance integrated over a window: what is held over each interval, times its length. -/
def balanceTime (window : Window) : ℚ :=
  ((ts.intervals window).map fun i => ts.holding account i.start * i.span).sum

/-- The size of what is held, added up over the intervals. -/
def balanceSize (window : Window) : ℚ :=
  ((ts.intervals window).map fun i => |ts.holding account i.start|).sum

theorem balanceTime_eq_overIntervals :
    ts.balanceTime account window =
      ts.overIntervals account (fun held i => held * i.span) window 0 := by
  unfold balanceTime overIntervals
  simp only [zero_add]

theorem balanceSize_eq_overIntervals :
    ts.balanceSize account window = ts.overIntervals account (fun held _ => |held|) window 0 := by
  unfold balanceSize overIntervals
  simp only [zero_add]

/-- Rounding the shares of all intervals moves a weighted sum of balances by at most half a unit
of the eighth digit for each interval and unit held. -/
theorem abs_shares_sub_le {weight : ℚ} (hweight : 0 ≤ weight) (hwindow : window.Valid)
    (hpos : 0 < length) (hlength : length < 2 ^ (63 : Nat)) :
    |ts.overIntervals account (fun held i => weight * (held * i.shareOf length)) window 0 -
        weight * (ts.balanceTime account window / length)| ≤
      1 / 2 / 10 ^ Decimal.ratioScale * (weight * ts.balanceSize account window) := by
  have hintegral : weight * (ts.balanceTime account window / length) =
      ts.overIntervals account (fun held i => weight / length * (held * i.span)) window 0 := by
    rw [overIntervals_const_mul, ← balanceTime_eq_overIntervals]
    ring
  have herror : 1 / 2 / 10 ^ Decimal.ratioScale * (weight * ts.balanceSize account window) =
      ts.overIntervals account
        (fun held _ => 1 / 2 / 10 ^ Decimal.ratioScale * weight * |held|) window 0 := by
    rw [overIntervals_const_mul, ← balanceSize_eq_overIntervals, mul_assoc]
  rw [hintegral, herror]
  refine abs_overIntervals_sub_le fun i hi held => ?_
  obtain ⟨hstart, -, hstop⟩ := within_of_mem_intervals hwindow.1 hi
  have hspan : i.span < 2 ^ (63 : Nat) := by
    have hmax := hwindow.2
    rw [Int64.le_iff_toInt_le] at hstart hstop
    unfold Window.span
    omega
  obtain ⟨share, hshare, hvalue⟩ := Context.ratio?_span hspan hpos hlength
  have hrounded := Decimal.abs_share_sub_le hspan hpos hlength hshare
  rw [hvalue] at hrounded
  calc |weight * (held * i.shareOf length) - weight / length * (held * i.span)|
      = |weight * held| * |i.shareOf length - i.span / length| := by
        rw [← abs_mul]
        congr 1
        ring
    _ ≤ |weight * held| * (1 / 2 / 10 ^ Decimal.ratioScale) :=
        mul_le_mul_of_nonneg_left hrounded (abs_nonneg _)
    _ = 1 / 2 / 10 ^ Decimal.ratioScale * weight * |held| := by
        rw [abs_mul, abs_of_nonneg hweight]
        ring

end Commits

namespace Walk

variable {w : Walk} {fraction : Decimal} {ts : Commits}

/-- The totals of an exact replay, against the integral of the balance over the window. -/
theorem abs_closing_sub_le (hwindow : w.window.Valid) (hperiod : 0 < w.config.custodyPeriod)
    (hfraction : checkFraction fraction = .ok ()) (hnonneg : 0 ≤ fraction.value)
    (hordered : ts.Pairwise fun a b => a.occurredAt ≤ b.occurredAt)
    (hbefore : ∀ t ∈ ts, t.occurredAt < w.window.stop)
    (hexact : w.ExactFrom fraction (.fresh w.window.start) ts) :
    ∃ c, w.closing fraction ts = .ok c ∧
      |c.auc.value - ts.balanceTime w.account w.window / w.window.span| ≤
        1 / 2 / 10 ^ Decimal.ratioScale * ts.balanceSize w.account w.window ∧
      |c.fee.value - fraction.value *
          (ts.balanceTime w.account w.window / w.config.custodyPeriod.toInt.toNat)| ≤
        1 / 2 / 10 ^ Decimal.ratioScale *
          (fraction.value * ts.balanceSize w.account w.window) := by
  obtain ⟨c, hclosing, hauc, hfee⟩ :=
    closing_of_exact hwindow hperiod hfraction hordered hbefore hexact
  have hlength := Window.span_of_valid hwindow
  have hperiod' := toNat_of_pos hperiod
  refine ⟨c, hclosing, ?_, ?_⟩
  · have h := Commits.abs_shares_sub_le ts w.account zero_le_one hwindow hlength.1 hlength.2
    simp only [one_mul] at h
    rw [hauc]
    exact h
  · have h := Commits.abs_shares_sub_le ts w.account hnonneg hwindow hperiod'.1 hperiod'.2
    have hpart : w.feePart fraction = fun held i =>
        fraction.value * (held * i.shareOf w.config.custodyPeriod.toInt.toNat) := by
      funext held i
      unfold feePart
      ring
    rw [hfee, hpart]
    exact h

end Walk

end Custodian
