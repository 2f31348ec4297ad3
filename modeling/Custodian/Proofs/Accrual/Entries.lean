import Custodian.Proofs.Accrual.Accuracy

/-!
# Entries into the context of one asset

The context of an asset changes by entries: it is settled up to an instant, or its balance moves
(`Entry`). A replay makes its entries in the order of the transfers; what is said here holds of
entries in any order, also of settlements that change nothing.

Where the custody period is as long as the window, both totals of a context grow by the same share
of the same balance, the fee by its fraction of that (`Proportional`). As long as nothing is
rounded the fee is that fraction of the assets under custody in the end
(`fee_eq_fraction_mul_auc`).
-/

namespace Custodian

/-- What happens to the context of an asset. -/
inductive Entry where
  /-- It is settled up to an instant. -/
  | settle (settleAt : Int64)
  /-- Its balance moves. -/
  | move (delta : Decimal)
  deriving DecidableEq, Repr

namespace Context

variable {c c' : Context} {window : Window} {period : Int64} {fraction : Decimal} {entry : Entry}
  {entries entries' : List Entry}

/-- Makes an entry. -/
def enter (window : Window) (fraction : Decimal) (period : Int64) (c : Context) :
    Entry → Except Error Context
  | .settle settleAt => c.settle window settleAt fraction period
  | .move delta => c.applyDelta delta

/-- Makes several entries, one after another. -/
def enterAll (window : Window) (fraction : Decimal) (period : Int64) (c : Context)
    (entries : List Entry) : Except Error Context :=
  entries.foldlM (enter window fraction period) c

theorem enterAll_cons :
    c.enterAll window fraction period (entry :: entries) =
      c.enter window fraction period entry >>= fun next =>
        next.enterAll window fraction period entries := List.foldlM_cons

theorem enterAll_append :
    c.enterAll window fraction period (entries ++ entries') =
      c.enterAll window fraction period entries >>= fun next =>
        next.enterAll window fraction period entries' := List.foldlM_append

/-! ## Exact entries -/

/-- No product and no sum that an entry forms has to be rounded. -/
def EntersExactly (window : Window) (fraction : Decimal) (period : Int64) (c : Context) :
    Entry → Prop
  | .settle settleAt => c.control < settleAt → c.SettlesExactly window settleAt fraction period
  | .move delta => c.balance.AddsExactly delta

/-- No product and no sum that several entries form has to be rounded. -/
def AllEnterExactly (window : Window) (fraction : Decimal) (period : Int64) (c : Context) :
    List Entry → Prop
  | [] => True
  | entry :: entries => c.EntersExactly window fraction period entry ∧
    ∀ next ∈ (c.enter window fraction period entry).toOption,
      next.AllEnterExactly window fraction period entries

instance : ∀ entry, Decidable (c.EntersExactly window fraction period entry)
  | .settle settleAt => inferInstanceAs (Decidable (c.control < settleAt → _))
  | .move delta => inferInstanceAs (Decidable (c.balance.AddsExactly delta))

instance decidableAllEnterExactly : ∀ (entries : List Entry) (c : Context),
    Decidable (c.AllEnterExactly window fraction period entries)
  | [], _ => inferInstanceAs (Decidable True)
  | entry :: entries, c =>
    have := decidableAllEnterExactly entries
    inferInstanceAs (Decidable (c.EntersExactly window fraction period entry ∧ ∀ next ∈ _, _))

/-! ## A custody period as long as the window -/

/-- A context settled within the window whose fee is the fraction of its assets under custody. -/
structure Proportional (window : Window) (fraction : Decimal) (c : Context) : Prop where
  start_le : window.start ≤ c.control
  le_stop : c.control ≤ window.stop
  fee : c.fee.value = fraction.value * c.auc.value

theorem proportional_withBalance (hwindow : window.Valid) (opening : Decimal) :
    Proportional window fraction (.withBalance window.start opening) := by
  refine ⟨Int64.le_refl _, Int64.le_of_lt hwindow.1, ?_⟩
  show Decimal.zero.value = fraction.value * Decimal.zero.value
  rw [Decimal.value_zero, mul_zero]

/-- A period as long as the window is measured as the window is. -/
theorem period_eq_span (hwindow : window.Valid) (hperiod : window.length = .ok period) :
    0 < period ∧ period.toInt.toNat = window.span := by
  obtain ⟨length, hlength, hvalue, hpos⟩ := Window.length_of_valid hwindow
  rw [hlength] at hperiod
  cases hperiod
  refine ⟨hpos, ?_⟩
  unfold Window.span
  rw [hvalue]

/-- An exact entry up to the end of the window is made, and keeps the fee at the fraction of the
assets under custody. -/
theorem Proportional.enter (h : Proportional window fraction c) (hwindow : window.Valid)
    (hperiod : window.length = .ok period) (hfraction : checkFraction fraction = .ok ())
    (hstop : ∀ settleAt, entry = .settle settleAt → settleAt ≤ window.stop)
    (hexact : c.EntersExactly window fraction period entry) :
    ∃ next, c.enter window fraction period entry = .ok next ∧
      Proportional window fraction next := by
  obtain ⟨hpos, hspan⟩ := period_eq_span hwindow hperiod
  cases entry with
  | move delta =>
    have hadds : c.balance.AddsExactly delta := hexact
    obtain ⟨balance, hadd, -⟩ := hadds.add?
    refine ⟨{ c with balance := balance }, ?_, h.start_le, h.le_stop, h.fee⟩
    show c.applyDelta delta = _
    unfold applyDelta
    rw [hadd]
  | settle settleAt =>
    by_cases hle : settleAt ≤ c.control
    · exact ⟨c, settle_of_le hle, h⟩
    · have hlt : c.control < settleAt := Int64.not_le.mp hle
      have hat : settleAt ≤ window.stop := hstop settleAt rfl
      have hstart := h.start_le
      have hfits : settleAt.toInt - c.control.toInt < 2 ^ (63 : Nat) := by
        have hmax := hwindow.2
        rw [Int64.le_iff_toInt_le] at hstart hat
        omega
      obtain ⟨next, hsettled, hcontrol, -, hauc, hfee⟩ :=
        settle_of_exact hwindow hpos hfraction hlt hfits (hexact hlt)
      refine ⟨next, hsettled, ?_, ?_, ?_⟩
      · rw [hcontrol]
        exact Int64.le_trans hstart (Int64.le_of_lt hlt)
      · rw [hcontrol]
        exact hat
      · -- both totals grow by one share, as the period is the window
        rw [hfee, hauc, hspan, h.fee]
        ring

/-- Exact entries up to the end of the window are all made, and keep the fee at the fraction of
the assets under custody. -/
theorem Proportional.enterAll (h : Proportional window fraction c) (hwindow : window.Valid)
    (hperiod : window.length = .ok period) (hfraction : checkFraction fraction = .ok ())
    (hstop : ∀ settleAt, .settle settleAt ∈ entries → settleAt ≤ window.stop)
    (hexact : c.AllEnterExactly window fraction period entries) :
    ∃ next, c.enterAll window fraction period entries = .ok next ∧
      Proportional window fraction next := by
  induction entries generalizing c with
  | nil => exact ⟨c, rfl, h⟩
  | cons entry entries ih =>
    obtain ⟨hfirst, hrest⟩ := hexact
    have hentry : ∀ settleAt, entry = .settle settleAt → settleAt ≤ window.stop := by
      intro settleAt heq
      apply hstop
      rw [heq]
      exact List.mem_cons_self
    obtain ⟨next, hnext, hproportional⟩ := h.enter hwindow hperiod hfraction hentry hfirst
    have hentries : ∀ settleAt, .settle settleAt ∈ entries → settleAt ≤ window.stop :=
      fun settleAt hmem => hstop settleAt (List.mem_cons_of_mem _ hmem)
    rw [enterAll_cons, hnext]
    exact ih hproportional hentries (hrest next (congrArg Except.toOption hnext))

/-- Entries that end with a settlement leave the control point at its instant or behind it. -/
theorem le_control_of_enterAll {settleAt : Int64}
    (h : c.enterAll window fraction period (entries ++ [.settle settleAt]) = .ok c') :
    settleAt ≤ c'.control := by
  rw [enterAll_append] at h
  obtain ⟨next, -, h⟩ := except_bind_eq_ok_iff.mp h
  rw [enterAll_cons] at h
  obtain ⟨settled, hsettled, h⟩ := except_bind_eq_ok_iff.mp h
  cases h
  exact (frame_of_settle hsettled).2.2.1

/-- Where the custody period is as long as the window, the fee is the fraction of the assets under
custody: after any entries within the window that need no rounding, from an opening balance on and
with a settlement up to the end of the window as the last one. All of them are made, and the
product of the fraction and the assets under custody is the fee, as decimals too. -/
theorem fee_eq_fraction_mul_auc {opening : Decimal} (hwindow : window.Valid)
    (hperiod : window.length = .ok period) (hfraction : checkFraction fraction = .ok ())
    (hwithin : ∀ settleAt, .settle settleAt ∈ entries → settleAt ≤ window.stop)
    (hexact : (withBalance window.start opening).AllEnterExactly window fraction period
      (entries ++ [.settle window.stop])) :
    ∃ c, (withBalance window.start opening).enterAll window fraction period
        (entries ++ [.settle window.stop]) = .ok c ∧
      c.control = window.stop ∧ c.fee.value = fraction.value * c.auc.value ∧
      ∃ product, fraction.mul? c.auc = some product ∧ product.value = c.fee.value := by
  have hstop : ∀ settleAt, .settle settleAt ∈ entries ++ [.settle window.stop] →
      settleAt ≤ window.stop := by
    intro settleAt hmem
    rcases List.mem_append.mp hmem with hmem | hmem
    · exact hwithin settleAt hmem
    · rw [List.mem_singleton] at hmem
      cases hmem
      exact Int64.le_refl _
  obtain ⟨c, hc, hproportional⟩ := (proportional_withBalance hwindow opening).enterAll hwindow
    hperiod hfraction hstop hexact
  have hcontrol : c.control = window.stop :=
    Int64.le_antisymm hproportional.le_stop (le_control_of_enterAll hc)
  have hmuls : fraction.MulsExactly c.auc := ⟨c.fee, hproportional.fee⟩
  obtain ⟨product, hproduct, hvalue⟩ := hmuls.mul?
  exact ⟨c, hc, hcontrol, hproportional.fee, product, hproduct, hvalue.trans hproportional.fee.symm⟩

/-- A window of a second in which a balance of 100 falls to 40 and rises to 65. -/
theorem fee_of_second :
    let window : Window := ⟨5000, 6000⟩
    let fraction : Decimal := ⟨false, 125, 4, by decide, by decide⟩
    let entries : List Entry := [.move ⟨true, 60, 0, by decide, by decide⟩, .settle 5250,
      .settle 5250, .move ⟨false, 250, 1, by decide, by decide⟩, .settle 5500]
    window.Valid ∧ window.length = .ok 1000 ∧ checkFraction fraction = .ok () ∧
      (∀ settleAt, .settle settleAt ∈ entries → settleAt ≤ window.stop) ∧
      (withBalance window.start ⟨false, 100, 0, by decide, by decide⟩).AllEnterExactly window
        fraction 1000 (entries ++ [.settle window.stop]) ∧
      ∃ c, (withBalance window.start ⟨false, 100, 0, by decide, by decide⟩).enterAll window
          fraction 1000 (entries ++ [.settle window.stop]) = .ok c ∧
        c.fee.value = fraction.value * c.auc.value := by
  intro window fraction entries
  have hwindow : window.Valid := by decide
  have hperiod : window.length = .ok 1000 := by decide
  have hfraction : checkFraction fraction = .ok () := by decide
  have hwithin : ∀ settleAt, .settle settleAt ∈ entries → settleAt ≤ window.stop := by
    intro settleAt hmem
    simp only [entries, List.mem_cons, List.not_mem_nil, Entry.settle.injEq, reduceCtorEq,
      false_or, or_false] at hmem
    rcases hmem with rfl | rfl | rfl <;> decide
  have hexact : (withBalance window.start ⟨false, 100, 0, by decide, by decide⟩).AllEnterExactly
      window fraction 1000 (entries ++ [.settle window.stop]) := by decide +kernel
  obtain ⟨c, hc, -, hfee, -⟩ :=
    fee_eq_fraction_mul_auc hwindow hperiod hfraction hwithin hexact
  exact ⟨hwindow, hperiod, hfraction, hwithin, hexact, c, hc, hfee⟩

end Context

end Custodian
