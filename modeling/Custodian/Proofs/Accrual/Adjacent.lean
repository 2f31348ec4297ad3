import Custodian.Proofs.Accrual.Accuracy

/-!
# Adjacent windows

A window is cut in two at an instant within it. Transfers from before the instant lie in the first
window and open the second one, so every interval between stamps is an interval of one of them,
but for the one that the instant lies in: that one is split (`Commits.Splits`). A stamp at the
instant leaves nothing to split.

The shares of the parts of an interval are rounded each on its own. So where nothing else is
rounded, the fee of a window differs from those of the two windows by at most three times half a
unit of the eighth digit, for each unit held at the instant (`Walk.fees_of_adjacent`).
-/

namespace Custodian

-- Powers of integers are those of the core library, whatever else is in scope; for that a
-- numeral as an exponent has its type.
attribute [local instance(1100)] instPowNat

/-! ## Splitting an interval -/

/-- A part of a window that is not empty is one itself. -/
theorem Window.valid_of_within {window : Window} {start stop : Int64} (h : window.Valid)
    (hlt : start < stop) (hstart : window.start ≤ start) (hstop : stop ≤ window.stop) :
    (Window.mk start stop).Valid := by
  have hmax := h.2
  rw [Int64.le_iff_toInt_le] at hstart hstop
  refine ⟨hlt, ?_⟩
  show stop.toInt - start.toInt < 2 ^ (63 : Nat)
  omega

/-- The shares of the parts of an interval add up to its own, but for the rounding of all three. -/
theorem Window.abs_shareOf_sub_add_le {start mid stop : Int64} {length : Nat} (hearly : start < mid)
    (hlate : mid < stop) (hspan : Window.span ⟨start, stop⟩ < 2 ^ (63 : Nat)) (hpos : 0 < length)
    (hlength : length < 2 ^ (63 : Nat)) :
    |shareOf ⟨start, stop⟩ length - (shareOf ⟨start, mid⟩ length + shareOf ⟨mid, stop⟩ length)| ≤
      3 / 2 / 10 ^ Decimal.ratioScale := by
  rw [Int64.lt_iff_toInt_lt] at hearly hlate
  have hadd : Window.span ⟨start, stop⟩ = Window.span ⟨start, mid⟩ + Window.span ⟨mid, stop⟩ := by
    show (stop.toInt - start.toInt).toNat =
      (mid.toInt - start.toInt).toNat + (stop.toInt - mid.toInt).toNat
    omega
  have hrounded : ∀ i : Window, i.span < 2 ^ (63 : Nat) →
      |i.shareOf length - i.span / length| ≤ 1 / 2 / 10 ^ Decimal.ratioScale := by
    intro i hi
    obtain ⟨share, hshare, hvalue⟩ := Context.ratio?_span hi hpos hlength
    rw [← hvalue]
    exact Decimal.abs_share_sub_le hi hpos hlength hshare
  have hwhole := hrounded ⟨start, stop⟩ hspan
  have hfirst := hrounded ⟨start, mid⟩ (by omega)
  have hsecond := hrounded ⟨mid, stop⟩ (by omega)
  have hsum : ((Window.span ⟨start, stop⟩ : Nat) : ℚ) / length =
      (Window.span ⟨start, mid⟩ : Nat) / length + (Window.span ⟨mid, stop⟩ : Nat) / length := by
    rw [hadd, Nat.cast_add, add_div]
  rw [hsum] at hwhole
  rw [abs_le] at hwhole hfirst hsecond ⊢
  have hthree : (3 / 2 / 10 ^ Decimal.ratioScale : ℚ) =
      1 / 2 / 10 ^ Decimal.ratioScale + 1 / 2 / 10 ^ Decimal.ratioScale +
        1 / 2 / 10 ^ Decimal.ratioScale := by ring
  rw [hthree]
  constructor
  · linarith
  · linarith

namespace Commits

variable {ts : Commits} {t : Transfer} {account : String} {start mid stop time : Int64}
  {opening : ℚ} {part : ℚ → Window → ℚ}

/-- What an account receives by several transfers, less what it sends. -/
def moved (ts : Commits) (account : String) : ℚ := (ts.map fun t => t.movement account).sum

theorem moved_nil : moved [] account = 0 := rfl

theorem moved_cons : moved (t :: ts) account = t.movement account + ts.moved account := rfl

theorem before_cons_of_lt (h : t.occurredAt < time) : before (t :: ts) time = t :: ts.before time :=
  List.filter_cons_of_pos (decide_eq_true h)

theorem before_eq_nil (h : ∀ t ∈ ts, time ≤ t.occurredAt) : ts.before time = [] := by
  unfold before
  rw [List.filter_eq_nil_iff]
  intro t ht
  rw [decide_eq_true_eq, Int64.not_lt]
  exact h t ht

/-- What the intervals of a window come to beyond those of the two windows that an instant cuts it
into. The first one has the transfers from before the instant only. -/
def excess (ts : Commits) (account : String) (part : ℚ → Window → ℚ) (start mid stop : Int64)
    (opening : ℚ) : ℚ :=
  ts.overIntervals account part ⟨start, stop⟩ opening -
    ((ts.before mid).overIntervals account part ⟨start, mid⟩ opening +
      ts.overIntervals account part ⟨mid, stop⟩ opening)

/-- A transfer from the start or before it is in the opening balance of both windows. -/
theorem excess_cons_of_le (h : t.occurredAt ≤ start) (hearly : start < mid) :
    excess (t :: ts) account part start mid stop opening =
      ts.excess account part start mid stop (opening + t.movement account) := by
  have hmid : t.occurredAt < mid := Int64.lt_of_le_of_lt h hearly
  unfold excess
  rw [before_cons_of_lt hmid, overIntervals_cons_of_le h, overIntervals_cons_of_le h,
    overIntervals_cons_of_le (Int64.le_of_lt hmid)]

/-- Up to a transfer of the first window both have the same interval. -/
theorem excess_cons_of_lt (h : start < t.occurredAt) (hmid : t.occurredAt < mid)
    (hlate : mid < stop) (hafter : ∀ t' ∈ ts, t.occurredAt ≤ t'.occurredAt) :
    excess (t :: ts) account part start mid stop opening =
      ts.excess account part t.occurredAt mid stop (opening + t.movement account) := by
  have hafter' : ∀ t' ∈ ts.before mid, t.occurredAt ≤ t'.occurredAt :=
    fun t' ht' => hafter t' (List.mem_of_mem_filter ht')
  unfold excess
  rw [before_cons_of_lt hmid, overIntervals_cons_of_lt h (Int64.lt_trans hmid hlate) hafter,
    overIntervals_cons_of_lt h hmid hafter', overIntervals_cons_of_le (Int64.le_refl _),
    overIntervals_cons_of_le (Int64.le_refl _), overIntervals_cons_of_le (Int64.le_of_lt hmid)]
  ring

/-- What becomes of the intervals of a window that an instant cuts in two. -/
inductive Splits (ts : Commits) (account : String) (part : ℚ → Window → ℚ)
    (start mid stop : Int64) (opening : ℚ) : Prop
  /-- They are those of the two windows. -/
  | stamped (hmid : ∃ t ∈ ts, t.occurredAt = mid)
      (h : ts.excess account part start mid stop opening = 0)
  /-- One of them is split, under the balance held at the instant. -/
  | within (first last : Int64) (hmid : ∀ t ∈ ts, t.occurredAt ≠ mid) (hstart : start ≤ first)
      (hfirst : first < mid) (hlast : mid < last) (hstop : last ≤ stop)
      (h : ts.excess account part start mid stop opening =
        part (opening + (ts.before mid).moved account) ⟨first, last⟩ -
          (part (opening + (ts.before mid).moved account) ⟨first, mid⟩ +
            part (opening + (ts.before mid).moved account) ⟨mid, last⟩))

/-- A transfer from before the instant does not change what is split. -/
theorem Splits.cons {start' : Int64} (hmid : t.occurredAt < mid) (hstart : start ≤ start')
    (hexcess : excess (t :: ts) account part start mid stop opening =
      ts.excess account part start' mid stop (opening + t.movement account))
    (h : ts.Splits account part start' mid stop (opening + t.movement account)) :
    Splits (t :: ts) account part start mid stop opening := by
  have hheld : opening + (before (t :: ts) mid).moved account =
      opening + t.movement account + (ts.before mid).moved account := by
    rw [before_cons_of_lt hmid, moved_cons, add_assoc]
  rcases h with ⟨⟨t', ht', hat⟩, h⟩ | ⟨first, last, hnone, hfrom, hfirst, hlast, hstop, h⟩
  · exact .stamped ⟨t', List.mem_cons_of_mem _ ht', hat⟩ (hexcess.trans h)
  · refine .within first last ?_ (Int64.le_trans hstart hfrom) hfirst hlast hstop ?_
    · intro t' ht'
      rcases List.mem_cons.mp ht' with rfl | ht'
      · intro heq
        rw [heq] at hmid
        exact Int64.lt_irrefl hmid
      · exact hnone t' ht'
    · rw [hexcess, h, hheld]

/-- The transfers that follow the instant leave at most one interval to be split. -/
theorem splits (hordered : ts.Pairwise fun a b => a.occurredAt ≤ b.occurredAt)
    (hbefore : ∀ t ∈ ts, t.occurredAt < stop) (hearly : start < mid) (hlate : mid < stop) :
    ts.Splits account part start mid stop opening := by
  induction ts generalizing start opening with
  | nil =>
    refine .within start stop (fun t ht => (nomatch ht)) (Int64.le_refl _) hearly hlate
      (Int64.le_refl _) ?_
    have hnil : before [] mid = [] := rfl
    unfold excess
    rw [hnil, overIntervals_nil, overIntervals_nil, overIntervals_nil, moved_nil, add_zero]
  | cons t ts ih =>
    have hafter : ∀ t' ∈ ts, t.occurredAt ≤ t'.occurredAt := (List.pairwise_cons.mp hordered).1
    have ht : t.occurredAt < stop := hbefore t List.mem_cons_self
    have hrest : ∀ {start : Int64} {opening : ℚ}, start < mid →
        Splits ts account part start mid stop opening :=
      ih (List.pairwise_cons.mp hordered).2 fun t' ht' => hbefore t' (List.mem_cons_of_mem _ ht')
    by_cases hmid : t.occurredAt < mid
    · by_cases hle : t.occurredAt ≤ start
      · exact .cons hmid (Int64.le_refl _) (excess_cons_of_le hle hearly) (hrest hearly)
      · have hlt : start < t.occurredAt := Int64.not_le.mp hle
        exact .cons hmid (Int64.le_of_lt hlt) (excess_cons_of_lt hlt hmid hlate hafter) (hrest hmid)
    · -- all transfers are from the instant on, so the first window is one interval
      have hfrom : mid ≤ t.occurredAt := Int64.not_lt.mp hmid
      have hnone : before (t :: ts) mid = [] := by
        apply before_eq_nil
        intro t' ht'
        rcases List.mem_cons.mp ht' with rfl | ht'
        · exact hfrom
        · exact Int64.le_trans hfrom (hafter t' ht')
      have hlt : start < t.occurredAt := Int64.lt_of_lt_of_le hearly hfrom
      by_cases heq : t.occurredAt = mid
      · apply Splits.stamped ⟨t, List.mem_cons_self, heq⟩
        unfold excess
        rw [hnone, overIntervals_cons_of_lt hlt ht hafter, overIntervals_nil, heq, sub_self]
      · have hbehind : mid < t.occurredAt := Int64.lt_of_le_of_ne hfrom (Ne.symm heq)
        refine .within start t.occurredAt ?_ (Int64.le_refl _) hearly hbehind (Int64.le_of_lt ht) ?_
        · intro t' ht' hat
          rcases List.mem_cons.mp ht' with rfl | ht'
          · exact heq hat
          · exact Int64.lt_irrefl (Int64.lt_of_lt_of_le hbehind (hat ▸ hafter t' ht'))
        · unfold excess
          rw [hnone, overIntervals_cons_of_lt hlt ht hafter,
            overIntervals_cons_of_lt hbehind ht hafter, overIntervals_nil, moved_nil, add_zero]
          ring

end Commits

/-! ## Exact replays of adjacent windows -/

namespace Commits

variable {ts : Commits} {time : Int64}

/-- The transfers from before an instant come first. -/
theorem exists_before_append (hordered : ts.Pairwise fun a b => a.occurredAt ≤ b.occurredAt) :
    ∃ rest : Commits, ts = ts.before time ++ rest ∧ ∀ t ∈ rest, time ≤ t.occurredAt := by
  induction ts with
  | nil => exact ⟨[], rfl, fun t ht => (nomatch ht)⟩
  | cons t ts ih =>
    by_cases hlt : t.occurredAt < time
    · obtain ⟨rest, hsplit, hrest⟩ := ih (List.pairwise_cons.mp hordered).2
      refine ⟨rest, ?_, hrest⟩
      rw [before_cons_of_lt hlt, List.cons_append, ← hsplit]
    · have hfrom : ∀ t' ∈ t :: ts, time ≤ t'.occurredAt := by
        intro t' ht'
        rcases List.mem_cons.mp ht' with rfl | ht'
        · exact Int64.not_lt.mp hlt
        · exact Int64.le_trans (Int64.not_lt.mp hlt) ((List.pairwise_cons.mp hordered).1 t' ht')
      exact ⟨t :: ts, by rw [before_eq_nil hfrom, List.nil_append], hfrom⟩

theorem lt_of_mem_before {t : Transfer} (h : t ∈ ts.before time) : t.occurredAt < time :=
  of_decide_eq_true (List.mem_filter.mp h).2

/-- Of the first transfers, those from before an instant are the first ones from before it. -/
theorem before_take (hordered : ts.Pairwise fun a b => a.occurredAt ≤ b.occurredAt) (n : Nat) :
    before (ts.take n) time = (ts.before time).take n := by
  obtain ⟨rest, hsplit, hrest⟩ := @exists_before_append ts time hordered
  have hfirst : ∀ t ∈ ts.before time, t.occurredAt < time := fun t ht => lt_of_mem_before ht
  generalize ts.before time = first at hsplit hfirst ⊢
  rw [hsplit, List.take_append]
  apply before_append
  · intro t ht
    exact hfirst t (List.mem_of_mem_take ht)
  · intro t ht
    exact hrest t (List.mem_of_mem_take ht)

end Commits

namespace Walk

variable {w : Walk} {fraction : Decimal} {c : Context} {ts rest : Commits}
  {start mid stop : Int64}

/-- The same walk over another window. -/
def during (w : Walk) (window : Window) : Walk := { w with window := window }

/-- In an exact replay the transfers up to the control point add up to a balance without
rounding. -/
theorem balanceFrom_of_exact (hle : ∀ t ∈ ts, t.occurredAt ≤ c.control)
    (hexact : w.ExactFrom fraction c (ts ++ rest)) :
    ∃ held, ts.balanceFrom w.account c.balance = some held ∧
      held.value = c.balance.value + ts.moved w.account := by
  induction ts generalizing c with
  | nil => exact ⟨c.balance, rfl, by rw [Commits.moved_nil, add_zero]⟩
  | cons t ts ih =>
    obtain ⟨-, hrest⟩ := hexact
    have hsettled : c.settle w.window t.occurredAt fraction w.config.custodyPeriod = .ok c :=
      Context.settle_of_le (hle t List.mem_cons_self)
    obtain ⟨hadds, hnext⟩ := hrest c (congrArg Except.toOption hsettled)
    obtain ⟨balance, hadd, hbalance⟩ := hadds.add?
    have happlied : c.applyDelta (t.deltaFor w.account) = .ok { c with balance := balance } := by
      unfold Context.applyDelta
      rw [hadd]
    obtain ⟨held, hheld, hvalue⟩ := ih (c := { c with balance := balance })
      (fun t' ht' => hle t' (List.mem_cons_of_mem _ ht'))
      (hnext _ (congrArg Except.toOption happlied))
    refine ⟨held, ?_, ?_⟩
    · rw [Commits.balanceFrom_cons, hadd]
      exact hheld
    · rw [hvalue, hbalance, Transfer.value_deltaFor, Commits.moved_cons, add_assoc]

/-- The fee of a window beyond those of the two windows that an instant cuts it into: what is held
at the instant counts at most three times half a unit, and nothing at all where a stamp is there. -/
theorem abs_excess_feePart_le (hwindow : (Window.mk start stop).Valid) (hearly : start < mid)
    (hlate : mid < stop) (hperiod : 0 < w.config.custodyPeriod) (hnonneg : 0 ≤ fraction.value)
    (hordered : ts.Pairwise fun a b => a.occurredAt ≤ b.occurredAt)
    (hbefore : ∀ t ∈ ts, t.occurredAt < stop) :
    |ts.excess w.account (w.feePart fraction) start mid stop 0| ≤
        3 / 2 / 10 ^ Decimal.ratioScale *
          (fraction.value * |(ts.before mid).moved w.account|) ∧
      ((∃ t ∈ ts, t.occurredAt = mid) →
        ts.excess w.account (w.feePart fraction) start mid stop 0 = 0) := by
  obtain ⟨hpos, hlength⟩ := toNat_of_pos hperiod
  have hsplits : ts.Splits w.account (w.feePart fraction) start mid stop 0 :=
    Commits.splits hordered hbefore hearly hlate
  rcases hsplits with ⟨-, hzero⟩ | ⟨first, last, hnone, hstart, hfirst, hlast, hstop, h⟩
  · refine ⟨?_, fun _ => hzero⟩
    rw [hzero, abs_zero]
    positivity
  · refine ⟨?_, fun ⟨t, ht, hat⟩ => absurd hat (hnone t ht)⟩
    have hinterval : (Window.mk first last).Valid :=
      Window.valid_of_within hwindow (Int64.lt_trans hfirst hlast) hstart hstop
    have hshares := Window.abs_shareOf_sub_add_le hfirst hlast (Window.span_of_valid hinterval).2
      hpos hlength
    rw [zero_add] at h
    generalize (ts.before mid).moved w.account = held at h ⊢
    let length := w.config.custodyPeriod.toInt.toNat
    have hfactor : ts.excess w.account (w.feePart fraction) start mid stop 0 =
        fraction.value * held * (Window.shareOf ⟨first, last⟩ length -
          (Window.shareOf ⟨first, mid⟩ length + Window.shareOf ⟨mid, last⟩ length)) := by
      rw [h]
      unfold feePart
      ring
    rw [hfactor, abs_mul, abs_mul, abs_of_nonneg hnonneg, mul_comm]
    exact mul_le_mul_of_nonneg_right hshares (by positivity)

/-- The fees of exact replays over adjacent windows and over both together. The first window has a
replay only if it has a transfer. -/
theorem fees_of_adjacent (hwindow : (Window.mk start stop).Valid) (hearly : start < mid)
    (hlate : mid < stop) (hperiod : 0 < w.config.custodyPeriod)
    (hfraction : checkFraction fraction = .ok ()) (hnonneg : 0 ≤ fraction.value)
    (hordered : ts.Pairwise fun a b => a.occurredAt ≤ b.occurredAt)
    (hbefore : ∀ t ∈ ts, t.occurredAt < stop)
    (hwhole : (w.during ⟨start, stop⟩).ExactFrom fraction (.fresh start) ts)
    (hfirst : ts.before mid ≠ [] →
      (w.during ⟨start, mid⟩).ExactFrom fraction (.fresh start) (ts.before mid))
    (hsecond : (w.during ⟨mid, stop⟩).ExactFrom fraction (.fresh mid) ts) :
    ∃ held whole second, (ts.before mid).balance w.account = some held ∧
      (w.during ⟨start, stop⟩).closing fraction ts = .ok whole ∧
      (w.during ⟨mid, stop⟩).closing fraction ts = .ok second ∧
      ∃ earlyFee : ℚ, (ts.before mid = [] → earlyFee = 0) ∧
        (ts.before mid ≠ [] → ∃ first,
          (w.during ⟨start, mid⟩).closing fraction (ts.before mid) = .ok first ∧
            first.fee.value = earlyFee) ∧
        |whole.fee.value - (earlyFee + second.fee.value)| ≤
          3 / 2 / 10 ^ Decimal.ratioScale * (fraction.value * |held.value|) ∧
        ((∃ t ∈ ts, t.occurredAt = mid) → whole.fee.value = earlyFee + second.fee.value) := by
  obtain ⟨held, hheld, hvalue⟩ : ∃ held, (ts.before mid).balance w.account = some held ∧
      held.value = (ts.before mid).moved w.account := by
    obtain ⟨rest, hsplit, -⟩ := Commits.exists_before_append hordered
    have hprefix : ∀ t ∈ ts.before mid, t.occurredAt ≤ mid := fun t ht =>
      Int64.le_of_lt (Commits.lt_of_mem_before ht)
    rw [hsplit] at hsecond
    obtain ⟨held, hheld, hvalue⟩ := balanceFrom_of_exact hprefix hsecond
    refine ⟨held, hheld, hvalue.trans ?_⟩
    show Decimal.zero.value + _ = _
    rw [Decimal.value_zero, zero_add]
    rfl
  obtain ⟨whole, hwholeClosing, -, hwholeFee⟩ :=
    closing_of_exact (w := w.during ⟨start, stop⟩) hwindow hperiod hfraction hordered hbefore hwhole
  obtain ⟨second, hsecondClosing, -, hsecondFee⟩ :=
    closing_of_exact (w := w.during ⟨mid, stop⟩)
      (Window.valid_of_within hwindow hlate (Int64.le_of_lt hearly) (Int64.le_refl _)) hperiod
      hfraction hordered hbefore hsecond
  obtain ⟨hbound, hstamped⟩ := abs_excess_feePart_le hwindow hearly hlate hperiod hnonneg hordered
    hbefore
  -- the fee of the first window, as a sum over its intervals
  let earlyFee := (ts.before mid).overIntervals w.account (w.feePart fraction) ⟨start, mid⟩ 0
  have hexcess : ts.excess w.account (w.feePart fraction) start mid stop 0 =
      whole.fee.value - (earlyFee + second.fee.value) := by
    rw [hwholeFee, hsecondFee]
    rfl
  rw [hexcess, ← hvalue] at hbound
  rw [hexcess] at hstamped
  refine ⟨held, whole, second, hheld, hwholeClosing, hsecondClosing, earlyFee, ?_, ?_, hbound, ?_⟩
  · intro hnil
    show Commits.overIntervals (ts.before mid) _ _ _ _ = 0
    rw [hnil, Commits.overIntervals_nil]
    unfold feePart
    ring
  · intro hne
    obtain ⟨first, hclosing, -, hfee⟩ := closing_of_exact (w := w.during ⟨start, mid⟩)
      (Window.valid_of_within hwindow hearly (Int64.le_refl _) (Int64.le_of_lt hlate)) hperiod
      hfraction (hordered.filter _) (fun t ht => Commits.lt_of_mem_before ht) (hfirst hne)
    exact ⟨first, hclosing, hfee⟩
  · intro hat
    exact sub_eq_zero.mp (hstamped hat)

end Walk

end Custodian
