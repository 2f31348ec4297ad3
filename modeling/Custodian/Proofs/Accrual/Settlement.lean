import Custodian.Replay.Walk

/-!
# What a settlement does

A settlement keeps the balance, and moves the control point up to its instant or not at all
(`Context.frame_of_settle`). Within a valid window and with a positive custody period it can
only fail for reasons that concern the one asset (`Context.failsScoped_settle`).
-/

namespace Custodian

-- Powers are those of the core library, whatever else is in scope; for that a numeral as an
-- exponent has its type.
attribute [local instance(1100)] instPowNat

/-! ## Failures that concern one asset -/

theorem except_bind_eq_ok_iff {ε α β : Type} {x : Except ε α} {f : α → Except ε β} {b : β} :
    x >>= f = .ok b ↔ ∃ a, x = .ok a ∧ f a = .ok b := by
  cases x with
  | ok a =>
    constructor
    · intro h
      exact ⟨a, rfl, h⟩
    · rintro ⟨a', h, hf⟩
      cases h
      exact hf
  | error e =>
    constructor
    · intro h
      cases h
    · rintro ⟨a', h, -⟩
      cases h

theorem except_bind_eq_error_iff {ε α β : Type} {x : Except ε α} {f : α → Except ε β} {e : ε} :
    x >>= f = .error e ↔ x = .error e ∨ ∃ a, x = .ok a ∧ f a = .error e := by
  rcases x with e' | a
  · constructor
    · intro h
      cases h
      exact .inl rfl
    · rintro (h | ⟨a, h, -⟩)
      · cases h
        rfl
      · cases h
  · constructor
    · intro h
      exact .inr ⟨a, rfl, h⟩
    · rintro (h | ⟨a', h, hf⟩)
      · cases h
      · cases h
        exact hf

/-- If the result is an error, the error concerns one asset only. -/
def FailsScoped {α : Type} (r : Except Error α) : Prop :=
  ∀ e, r = .error e → e.assetScoped = true

section FailsScoped

variable {α β : Type} {x : Except Error α} {f : α → Except Error β}

theorem failsScoped_ok (a : α) : FailsScoped (.ok a) := by
  intro e h
  cases h

theorem failsScoped_overflow (operation : String) :
    FailsScoped (.error (Context.overflow operation) : Except Error α) := by
  intro e h
  cases h
  rfl

theorem FailsScoped.bind (hx : FailsScoped x) (hf : ∀ a, x = .ok a → FailsScoped (f a)) :
    FailsScoped (x >>= f) := by
  cases x with
  | ok a => exact hf a rfl
  | error e =>
    intro e' h
    cases h
    exact hx e rfl

/-- An error that concerns one asset has a cause to be noted. -/
theorem Error.assetCause?_of_assetScoped {e : Error} (h : e.assetScoped = true) :
    ∃ cause, e.assetCause? = some cause := by
  cases e with
  | custody cause => exact ⟨cause, if_pos h⟩
  | database _ => cases h
  | input _ => cases h
  | invalidConfigValue _ => cases h
  | repository _ => cases h
  | unexpected _ => cases h

end FailsScoped

/-! ## The fraction -/

/-- A fraction that is accepted lies in `(0, 1]`. -/
theorem checkFraction_eq_ok_iff {fraction : Decimal} :
    checkFraction fraction = .ok () ↔ .zero < fraction ∧ fraction ≤ .one := by
  unfold checkFraction
  split
  · rename_i h
    refine ⟨fun heq => (nomatch heq), fun ⟨hpos, hone⟩ => ?_⟩
    rcases h with hle | hlt
    · exact absurd hle (Int.not_le.mpr hpos)
    · exact absurd hlt (Int.not_lt.mpr hone)
  · rename_i h
    rw [not_or] at h
    exact ⟨fun _ => ⟨Int.not_le.mp h.1, Int.not_lt.mp h.2⟩, fun _ => rfl⟩

/-! ## Lengths of time -/

/-- A positive length of time as a natural number. -/
theorem toNat_of_pos {length : Int64} (h : 0 < length) :
    0 < length.toInt.toNat ∧ length.toInt.toNat < 2 ^ (63 : Nat) := by
  have hmax := length.toInt_lt
  rw [Int64.lt_iff_toInt_lt, Int64.toInt_zero] at h
  omega

theorem Window.length_of_valid {w : Window} (h : w.Valid) :
    ∃ length, w.length = .ok length ∧ length.toInt = w.stop.toInt - w.start.toInt ∧
      0 < length := by
  obtain ⟨hlt, hmax⟩ := h
  rw [Int64.lt_iff_toInt_lt] at hlt
  have hlength : Time.minus? w.stop w.start =
      some (Int64.ofInt (w.stop.toInt - w.start.toInt)) := by
    unfold Time.minus?
    exact if_pos ⟨by omega, hmax⟩
  have hvalue := Time.minus?_eq_some_iff.mp hlength
  generalize Int64.ofInt (w.stop.toInt - w.start.toInt) = length at hlength hvalue
  have hpos : 0 < length := by
    rw [Int64.lt_iff_toInt_lt, Int64.toInt_zero]
    omega
  refine ⟨length, ?_, hvalue, hpos⟩
  have hsome : w.length? = some length := by
    unfold Window.length?
    rw [hlength, Option.filter_some, if_pos (decide_eq_true hpos)]
  unfold Window.length
  rw [hsome]

namespace Context

variable {c c' : Context} {window : Window} {settleAt total elapsed period : Int64}
  {fraction delta : Decimal}

/-! ## Causes of failure -/

theorem failsScoped_timeShare : FailsScoped (timeShare elapsed total) := by
  unfold timeShare
  split
  · exact failsScoped_ok _
  · exact failsScoped_overflow _

theorem failsScoped_orOverflow (operation : String) (d : Option Decimal) :
    FailsScoped (orOverflow operation d) := by
  cases d with
  | some d => exact failsScoped_ok d
  | none => exact failsScoped_overflow operation

theorem failsScoped_elapsedTo : FailsScoped (c.elapsedTo settleAt) := by
  unfold elapsedTo
  split
  · exact failsScoped_ok _
  · exact failsScoped_overflow _

theorem failsScoped_applyDelta : FailsScoped (c.applyDelta delta) := by
  unfold applyDelta
  split
  · exact failsScoped_ok _
  · exact failsScoped_overflow _

theorem failsScoped_accrueAuc (htotal : 0 < total) (helapsed : 0 ≤ elapsed) {held : Decimal} :
    FailsScoped (c.accrueAuc total elapsed held) := by
  have hvalid : ¬(total ≤ 0 ∨ elapsed < 0) := by
    rw [Int64.lt_iff_toInt_lt] at htotal
    rw [Int64.le_iff_toInt_le] at helapsed
    rw [Int64.le_iff_toInt_le, Int64.lt_iff_toInt_lt]
    omega
  unfold accrueAuc
  rw [if_neg hvalid]
  refine failsScoped_timeShare.bind fun share _ => ?_
  refine (failsScoped_orOverflow _ _).bind fun accrued _ => ?_
  exact (failsScoped_orOverflow _ _).bind fun auc _ => failsScoped_ok _

theorem failsScoped_checkFraction : FailsScoped (checkFraction fraction) := by
  unfold checkFraction
  split
  · intro e h
    cases h
    rfl
  · exact failsScoped_ok _

theorem failsScoped_accrueFee (hperiod : 0 < period) :
    FailsScoped (c.accrueFee settleAt fraction period) := by
  have hvalid : ¬period ≤ 0 := by
    rw [Int64.lt_iff_toInt_lt] at hperiod
    rw [Int64.le_iff_toInt_le]
    omega
  unfold accrueFee
  refine failsScoped_checkFraction.bind fun _ _ => ?_
  rw [if_neg hvalid]
  refine failsScoped_elapsedTo.bind fun elapsed _ => ?_
  split
  · intro e h
    cases h
    rfl
  · unfold accrueFeeOver
    refine failsScoped_timeShare.bind fun share _ => ?_
    refine (failsScoped_orOverflow _ _).bind fun accrued _ => ?_
    exact (failsScoped_orOverflow _ _).bind fun fee _ => failsScoped_ok _

/-- A settlement fails, if at all, for reasons of its asset. -/
theorem failsScoped_settle (hwindow : window.Valid) (hperiod : 0 < period) :
    FailsScoped (c.settle window settleAt fraction period) := by
  unfold settle
  split
  · exact failsScoped_ok _
  · rename_i hafter
    obtain ⟨length, hlength, -, hpos⟩ := Window.length_of_valid hwindow
    refine failsScoped_elapsedTo.bind fun elapsed helapsed => ?_
    rw [hlength]
    refine (failsScoped_ok length).bind fun total htotal => ?_
    cases htotal
    have hnonneg : 0 ≤ elapsed := by
      unfold elapsedTo at helapsed
      split at helapsed
      · rename_i hminus
        cases helapsed
        have := Time.minus?_eq_some_iff.mp hminus
        rw [Int64.not_le, Int64.lt_iff_toInt_lt] at hafter
        rw [Int64.le_iff_toInt_le, Int64.toInt_zero]
        omega
      · cases helapsed
    refine (failsScoped_accrueAuc hpos hnonneg).bind fun accrued _ => ?_
    exact (failsScoped_accrueFee hperiod).bind fun charged _ => failsScoped_ok _

/-- So there is a cause to be noted. -/
theorem exists_cause_of_settle (hwindow : window.Valid) (hperiod : 0 < period) {e : Error}
    (h : c.settle window settleAt fraction period = .error e) :
    ∃ cause, e.assetCause? = some cause :=
  Error.assetCause?_of_assetScoped (failsScoped_settle hwindow hperiod e h)

/-! ## Balance and control point -/

theorem accrueAuc_eq_ok {held : Decimal} (h : c.accrueAuc total elapsed held = .ok c') :
    c' = { c with auc := c'.auc } := by
  unfold accrueAuc at h
  split at h
  · cases h
  · obtain ⟨share, -, h⟩ := except_bind_eq_ok_iff.mp h
    obtain ⟨accrued, -, h⟩ := except_bind_eq_ok_iff.mp h
    obtain ⟨auc, -, h⟩ := except_bind_eq_ok_iff.mp h
    cases h
    rfl

theorem accrueFee_eq_ok (h : c.accrueFee settleAt fraction period = .ok c') :
    c' = { c with fee := c'.fee } := by
  unfold accrueFee at h
  obtain ⟨_, -, h⟩ := except_bind_eq_ok_iff.mp h
  split at h
  · cases h
  · obtain ⟨elapsed, -, h⟩ := except_bind_eq_ok_iff.mp h
    split at h
    · cases h
    · unfold accrueFeeOver at h
      obtain ⟨share, -, h⟩ := except_bind_eq_ok_iff.mp h
      obtain ⟨accrued, -, h⟩ := except_bind_eq_ok_iff.mp h
      obtain ⟨fee, -, h⟩ := except_bind_eq_ok_iff.mp h
      cases h
      rfl

/-- At or before the control point there is nothing to settle. -/
theorem settle_of_le (h : settleAt ≤ c.control) :
    c.settle window settleAt fraction period = .ok c := if_pos h

/-- What a settlement leaves alone, and where it moves the control point. -/
theorem frame_of_settle (h : c.settle window settleAt fraction period = .ok c') :
    c'.balance = c.balance ∧ c.control ≤ c'.control ∧ settleAt ≤ c'.control ∧
      (c.control < c'.control → c'.control = settleAt) := by
  unfold settle at h
  split at h
  · rename_i hle
    cases h
    exact ⟨rfl, Int64.le_refl _, hle, fun hlt => absurd hlt Int64.lt_irrefl⟩
  · rename_i hlt
    obtain ⟨elapsed, -, h⟩ := except_bind_eq_ok_iff.mp h
    obtain ⟨length, -, h⟩ := except_bind_eq_ok_iff.mp h
    obtain ⟨accrued, haccrued, h⟩ := except_bind_eq_ok_iff.mp h
    obtain ⟨charged, hcharged, h⟩ := except_bind_eq_ok_iff.mp h
    cases h
    have hbalance : charged.balance = c.balance := by
      rw [accrueFee_eq_ok hcharged, accrueAuc_eq_ok haccrued]
    refine ⟨hbalance, ?_, Int64.le_refl _, fun _ => rfl⟩
    rw [Int64.not_le, Int64.lt_iff_toInt_lt] at hlt
    show c.control ≤ settleAt
    rw [Int64.le_iff_toInt_le]
    omega

/-- Settled up to an instant that is not behind it, a context stands there. -/
theorem control_eq_of_settle (hle : c.control ≤ settleAt)
    (h : c.settle window settleAt fraction period = .ok c') : c'.control = settleAt := by
  obtain ⟨-, hforward, hreached, hmoved⟩ := frame_of_settle h
  rcases Int64.lt_or_eq_of_le hforward with hlt | heq
  · exact hmoved hlt
  · exact Int64.le_antisymm (heq ▸ hle) hreached

theorem applyDelta_eq_ok (h : c.applyDelta delta = .ok c') :
    c.balance.add? delta = some c'.balance ∧ c' = { c with balance := c'.balance } := by
  unfold applyDelta at h
  split at h
  · rename_i balance hadd
    cases h
    exact ⟨hadd, rfl⟩
  · cases h

end Context

end Custodian
