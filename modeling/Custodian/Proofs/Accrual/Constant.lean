import Custodian.Proofs.Accrual.Entries
import Mathlib.Algebra.BigOperators.Ring.Finset

/-!
# Balances that stay the same

A balance that is the same over every interval of a window is multiplied by the shares of all of
them, and a share is rounded on its own. So what is accrued is the balance times the sum of the
rounded shares (`Commits.shares`), which need not be one: three thirds come to `0.99999999`. It is
one where every share has at most eight digits (`Commits.shares_eq_one`).
-/

namespace Custodian

-- Powers of integers are those of the core library, whatever else is in scope; for that a
-- numeral as an exponent has its type.
attribute [local instance(1100)] instPowNat

namespace Window

variable {start stop : Int64} {times : List Int64} {i window : Window}

/-- An interval starts where the window does or at one of the instants. -/
theorem start_eq_or_mem_of_mem_cut (hi : i ∈ cut ⟨start, stop⟩ times) :
    i.start = start ∨ i.start ∈ times := by
  induction times generalizing start with
  | nil =>
    rw [List.mem_singleton.mp hi]
    exact .inl rfl
  | cons time times ih =>
    rcases List.mem_cons.mp hi with rfl | hi
    · exact .inl rfl
    · rcases ih hi with heq | hmem
      · exact .inr (heq ▸ List.mem_cons_self)
      · exact .inr (List.mem_cons_of_mem _ hmem)

/-- Together the intervals are as long as the window. -/
theorem sum_span_cut (hordered : (start :: times).Pairwise (· < ·)) (hlt : start < stop)
    (hbefore : ∀ time ∈ times, time < stop) :
    ((cut ⟨start, stop⟩ times).map span).sum = span ⟨start, stop⟩ := by
  induction times generalizing start with
  | nil => exact List.sum_singleton
  | cons time times ih =>
    have hfirst : start < time := (List.pairwise_cons.mp hordered).1 time List.mem_cons_self
    have hlast : time < stop := hbefore time List.mem_cons_self
    have hrest := ih (List.pairwise_cons.mp hordered).2 hlast
      fun time' h => hbefore time' (List.mem_cons_of_mem _ h)
    rw [cut, List.map_cons, List.sum_cons, hrest]
    rw [Int64.lt_iff_toInt_lt] at hfirst hlast
    show (time.toInt - start.toInt).toNat + (stop.toInt - time.toInt).toNat =
      (stop.toInt - start.toInt).toNat
    omega

/-- A share that has eight digits is not rounded. -/
theorem shareOf_of_dvd {length : Nat} (hpos : 0 < length)
    (h : length ∣ i.span * 10 ^ Decimal.ratioScale) :
    i.shareOf length = (i.span : ℚ) / length := by
  obtain ⟨k, hk⟩ := h
  have hround : Decimal.roundHalfUp (i.span * 10 ^ Decimal.ratioScale) length = k := by
    have hone := Decimal.roundHalfUp_mul (n := k) (d := 1) hpos
    rwa [Nat.one_mul, Decimal.roundHalfUp_one, Nat.mul_comm k, ← hk] at hone
  have hcast : (i.span : ℚ) * 10 ^ Decimal.ratioScale = length * k := by exact_mod_cast hk
  have hlength : (length : ℚ) ≠ 0 := by positivity
  unfold shareOf
  rw [hround, div_eq_div_iff (by positivity) hlength, hcast, mul_comm]

end Window

namespace Commits

variable {ts : Commits} {account : String} {window i : Window} {held : ℚ}
  {part : ℚ → Window → ℚ} {length : Nat}

/-- The sum of the shares of all intervals in a length of time, each rounded to eight digits after
the point. -/
def shares (ts : Commits) (window : Window) (length : Nat) : ℚ :=
  ((ts.intervals window).map fun i => i.shareOf length).sum

/-- An account holds the same just after the transfers stamped by the start of a window and after
those of every later instant. -/
structure HoldsThroughout (ts : Commits) (account : String) (window : Window) (held : ℚ) :
    Prop where
  opening : ts.holding account window.start = held
  later : ∀ t ∈ ts, window.start < t.occurredAt → ts.holding account t.occurredAt = held

theorem sum_span_intervals (hwindow : window.start < window.stop) :
    ((ts.intervals window).map fun i => (i.span : ℚ)).sum = window.span := by
  have hordered : (window.start :: ts.moments window).Pairwise (· < ·) :=
    List.pairwise_cons.mpr ⟨fun time htime => (mem_moments.mp htime).2.1, pairwise_moments ts window⟩
  have hsum := congrArg (Nat.cast (R := ℚ))
    (Window.sum_span_cut hordered hwindow fun time htime => (mem_moments.mp htime).2.2)
  rwa [Nat.cast_list_sum, List.map_map] at hsum

theorem HoldsThroughout.holding (h : ts.HoldsThroughout account window held)
    (hi : i ∈ ts.intervals window) : ts.holding account i.start = held := by
  rcases Window.start_eq_or_mem_of_mem_cut hi with heq | hmem
  · rw [heq]
    exact h.opening
  · obtain ⟨⟨t, ht, heq⟩, hlt, -⟩ := mem_moments.mp hmem
    rw [← heq] at hlt ⊢
    exact h.later t ht hlt

/-- The same balance counts for every interval. -/
theorem HoldsThroughout.overIntervals (h : ts.HoldsThroughout account window held) :
    ts.overIntervals account part window 0 =
      ((ts.intervals window).map fun i => part held i).sum := by
  unfold Commits.overIntervals
  refine congrArg List.sum (List.map_congr_left fun i hi => ?_)
  rw [h.holding hi, zero_add]

theorem HoldsThroughout.balanceTime (h : ts.HoldsThroughout account window held)
    (hwindow : window.start < window.stop) : ts.balanceTime account window = held * window.span := by
  rw [balanceTime_eq_overIntervals, h.overIntervals, List.sum_map_mul_left,
    sum_span_intervals hwindow]

theorem HoldsThroughout.balanceSize (h : ts.HoldsThroughout account window held) :
    ts.balanceSize account window = (ts.intervals window).length * |held| := by
  rw [balanceSize_eq_overIntervals, h.overIntervals, List.map_const', List.sum_replicate,
    nsmul_eq_mul]

/-- Shares of eight digits add up to one. -/
theorem shares_eq_one (hwindow : window.Valid)
    (h : ∀ i ∈ ts.intervals window, window.span ∣ i.span * 10 ^ Decimal.ratioScale) :
    ts.shares window window.span = 1 := by
  have hpos := (Window.span_of_valid hwindow).1
  have hspan : (window.span : ℚ) ≠ 0 := by positivity
  have hexact : (ts.intervals window).map (fun i => i.shareOf window.span) =
      (ts.intervals window).map fun i => (i.span : ℚ) * (window.span : ℚ)⁻¹ :=
    List.map_congr_left fun i hi => (Window.shareOf_of_dvd hpos (h i hi)).trans (div_eq_mul_inv _ _)
  unfold shares
  rw [hexact, List.sum_map_mul_right, sum_span_intervals hwindow.1, mul_inv_cancel₀ hspan]

end Commits

namespace Walk

variable {w : Walk} {ts : Commits} {fraction : Decimal} {held : ℚ}

/-- The totals of an exact replay of a balance that stays the same. -/
theorem closing_of_constant (hwindow : w.window.Valid) (hperiod : 0 < w.config.custodyPeriod)
    (hfraction : checkFraction fraction = .ok ())
    (hordered : ts.Pairwise fun a b => a.occurredAt ≤ b.occurredAt)
    (hbefore : ∀ t ∈ ts, t.occurredAt < w.window.stop)
    (hexact : w.ExactFrom fraction (.fresh w.window.start) ts)
    (hheld : ts.HoldsThroughout w.account w.window held) :
    ∃ c, w.closing fraction ts = .ok c ∧
      c.auc.value = held * ts.shares w.window w.window.span ∧
      c.fee.value =
        fraction.value * (held * ts.shares w.window w.config.custodyPeriod.toInt.toNat) := by
  obtain ⟨c, hclosing, hauc, hfee⟩ :=
    closing_of_exact hwindow hperiod hfraction hordered hbefore hexact
  refine ⟨c, hclosing, ?_, ?_⟩
  · have hpart : w.aucPart = fun held i => held * i.shareOf w.window.span := rfl
    rw [hauc, hheld.overIntervals, hpart, List.sum_map_mul_left, Commits.shares]
  · have hpart : w.feePart fraction = fun held i =>
        fraction.value * held * i.shareOf w.config.custodyPeriod.toInt.toNat := by
      funext held i
      unfold feePart
      ring
    rw [hfee, hheld.overIntervals, hpart, List.sum_map_mul_left, mul_assoc, Commits.shares]

end Walk

end Custodian
