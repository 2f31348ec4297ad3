import Custodian.Proofs.Accrual.Timeline
import Custodian.Proofs.Decimal.Ratio

/-!
# What a settlement inside its window can fail with

A settlement from a control point in the window up to an instant that is not behind its end never
goes back, its lengths of time can be counted, and shares of time are always found. With a usable
fraction and a positive custody period all that is left to fail are the sums and products of
decimals (`Context.onlyOverflows_settle`).
-/

namespace Custodian

-- Powers of integers are those of the core library, whatever else is in scope; for that a
-- numeral as an exponent has its type.
attribute [local instance(1100)] instPowNat

namespace Context

/-- The sums and products of decimals in a settlement and a movement of the balance. -/
def decimalOperations : List String :=
  ["AUC increment", "cumulative AUC", "fee increment", "cumulative fee", "running balance"]

/-- If the result is an error, a sum or a product of decimals does not fit. -/
def OnlyOverflows {α : Type} (r : Except Error α) : Prop :=
  ∀ e, r = .error e → ∃ operation ∈ decimalOperations, e = overflow operation

section OnlyOverflows

variable {α β : Type} {x : Except Error α} {f : α → Except Error β}

theorem onlyOverflows_ok (a : α) : OnlyOverflows (.ok a) := by
  intro e h
  cases h

theorem onlyOverflows_overflow {operation : String} (h : operation ∈ decimalOperations) :
    OnlyOverflows (.error (overflow operation) : Except Error α) := by
  intro e he
  cases he
  exact ⟨operation, h, rfl⟩

theorem OnlyOverflows.bind (hx : OnlyOverflows x) (hf : ∀ a, x = .ok a → OnlyOverflows (f a)) :
    OnlyOverflows (x >>= f) := by
  cases x with
  | ok a => exact hf a rfl
  | error e =>
    intro e' h
    cases h
    exact hx e rfl

/-- An overflow concerns one asset only. -/
theorem OnlyOverflows.failsScoped (h : OnlyOverflows x) : FailsScoped x := by
  intro e he
  obtain ⟨operation, -, rfl⟩ := h e he
  rfl

end OnlyOverflows

variable {c : Context} {window : Window} {settleAt total elapsed period : Int64}
  {fraction delta : Decimal}

theorem onlyOverflows_orOverflow {operation : String} (h : operation ∈ decimalOperations)
    (d : Option Decimal) : OnlyOverflows (orOverflow operation d) := by
  cases d with
  | some d => exact onlyOverflows_ok d
  | none => exact onlyOverflows_overflow h

/-- The share of a length of time in another one is always found. -/
theorem timeShare_eq_ok (elapsed : Int64) (htotal : 0 < total) :
    ∃ share, timeShare elapsed total = .ok share := by
  have hn : elapsed.toInt.toNat < 2 ^ (63 : Nat) := by
    have := elapsed.toInt_lt
    omega
  obtain ⟨hpos, hd⟩ := toNat_of_pos htotal
  obtain ⟨share, hshare, -⟩ := Decimal.ratio?_eq_some hn hpos hd
  refine ⟨share, ?_⟩
  unfold timeShare
  rw [hshare]

theorem onlyOverflows_applyDelta : OnlyOverflows (c.applyDelta delta) := by
  unfold applyDelta
  split
  · exact onlyOverflows_ok _
  · apply onlyOverflows_overflow
    decide

theorem onlyOverflows_accrueAuc (htotal : 0 < total) (helapsed : 0 ≤ elapsed) {held : Decimal} :
    OnlyOverflows (c.accrueAuc total elapsed held) := by
  have hvalid : ¬(total ≤ 0 ∨ elapsed < 0) := by
    rw [not_or, Int64.not_le, Int64.not_lt]
    exact ⟨htotal, helapsed⟩
  obtain ⟨share, hshare⟩ := timeShare_eq_ok elapsed htotal
  unfold accrueAuc
  rw [if_neg hvalid, hshare]
  apply (onlyOverflows_ok share).bind
  intro share _
  apply (onlyOverflows_orOverflow (by decide) _).bind
  intro accrued _
  apply (onlyOverflows_orOverflow (by decide) _).bind
  intro auc _
  exact onlyOverflows_ok _

theorem onlyOverflows_accrueFee (hperiod : 0 < period) (hfraction : checkFraction fraction = .ok ())
    (helapsed : c.elapsedTo settleAt = .ok elapsed) (hnonneg : 0 ≤ elapsed) :
    OnlyOverflows (c.accrueFee settleAt fraction period) := by
  obtain ⟨share, hshare⟩ := timeShare_eq_ok elapsed hperiod
  unfold accrueFee
  rw [hfraction, helapsed, if_neg (Int64.not_le.mpr hperiod)]
  show OnlyOverflows (if elapsed < 0 then _ else _ : Except Error Context)
  rw [if_neg (Int64.not_lt.mpr hnonneg)]
  unfold accrueFeeOver
  rw [hshare]
  apply (onlyOverflows_ok share).bind
  intro share _
  apply (onlyOverflows_orOverflow (by decide) _).bind
  intro accrued _
  apply (onlyOverflows_orOverflow (by decide) _).bind
  intro fee _
  exact onlyOverflows_ok _

/-- Inside the window a settlement fails, if at all, because a decimal does not fit. -/
theorem onlyOverflows_settle (hwindow : window.Valid) (hperiod : 0 < period)
    (hfraction : checkFraction fraction = .ok ()) (hstart : window.start ≤ c.control)
    (hstop : settleAt ≤ window.stop) :
    OnlyOverflows (c.settle window settleAt fraction period) := by
  unfold settle
  split
  · exact onlyOverflows_ok _
  · rename_i hafter
    rw [Int64.not_le] at hafter
    have hspan : settleAt.toInt - c.control.toInt < 2 ^ (63 : Nat) := by
      have hmax := hwindow.2
      rw [Int64.le_iff_toInt_le] at hstart hstop
      omega
    obtain ⟨length, hlength, -, hpos⟩ := Window.length_of_valid hwindow
    obtain ⟨elapsed, helapsed, -, hnonneg⟩ := elapsedTo_of_lt hafter hspan
    rw [helapsed, hlength]
    show OnlyOverflows (c.accrueAuc length elapsed c.balance >>= fun accrued =>
      accrued.accrueFee settleAt fraction period >>= fun charged =>
        pure (charged.advanceTo settleAt))
    apply (onlyOverflows_accrueAuc hpos hnonneg).bind
    intro accrued haccrued
    -- the control point is still where it was
    have hsame : accrued.elapsedTo settleAt = .ok elapsed := by
      rw [accrueAuc_eq_ok haccrued]
      exact helapsed
    apply (onlyOverflows_accrueFee hperiod hfraction hsame hnonneg).bind
    intro charged _
    exact onlyOverflows_ok _

end Context

end Custodian
