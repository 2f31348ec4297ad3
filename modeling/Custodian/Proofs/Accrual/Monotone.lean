import Custodian.Proofs.Accrual.Entries
import Custodian.Proofs.Decimal.Rounding

/-!
# Totals that only grow

As long as a balance is not negative when it is settled, no settlement takes anything off the
totals of a context: shares of time and accepted fractions are not negative, and sums and products
that have to be rounded do not fall below what is there (`Decimal.le_of_add?`). So over any
entries, in any order and at any instants, neither total ever goes down or below zero
(`Context.totals_monotone`).
-/

namespace Custodian

/-- A share of time is not negative. -/
theorem value_nonneg_of_timeShare {elapsed total : Int64} {share : Decimal}
    (h : timeShare elapsed total = .ok share) : 0 ≤ share.value := by
  unfold timeShare at h
  split at h
  · rename_i hratio
    cases h
    have hnegative : share.negative = false := (Decimal.make?_eq_some_iff.mp hratio).1
    rw [Decimal.value_of_nonneg hnegative]
    exact div_nonneg (Nat.cast_nonneg _) (by positivity)
  · cases h

theorem orOverflow_eq_ok_iff {operation : String} {d : Option Decimal} {result : Decimal} :
    orOverflow operation d = .ok result ↔ d = some result := by
  cases d with
  | some d => rw [orOverflow, Except.ok.injEq, Option.some.injEq]
  | none => exact iff_of_false (fun h => nomatch h) fun h => nomatch h

namespace Context

variable {c c' start last : Context} {window : Window} {settleAt total elapsed period : Int64}
  {fraction held : Decimal} {entry : Entry} {entries before after : List Entry}

/-! ## One settlement -/

theorem le_auc_of_accrueAuc (hauc : 0 ≤ c.auc.value) (hheld : 0 ≤ held.value)
    (h : c.accrueAuc total elapsed held = .ok c') : c.auc.value ≤ c'.auc.value := by
  unfold accrueAuc at h
  split at h
  · cases h
  · obtain ⟨share, hshare, h⟩ := except_bind_eq_ok_iff.mp h
    obtain ⟨accrued, haccrued, h⟩ := except_bind_eq_ok_iff.mp h
    obtain ⟨auc, hadd, h⟩ := except_bind_eq_ok_iff.mp h
    cases h
    have hnonneg := Decimal.value_nonneg_of_mul? hheld (value_nonneg_of_timeShare hshare)
      (orOverflow_eq_ok_iff.mp haccrued)
    exact Decimal.le_of_add? hauc hnonneg (orOverflow_eq_ok_iff.mp hadd)

theorem le_fee_of_accrueFee (hfee : 0 ≤ c.fee.value) (hheld : 0 ≤ c.balance.value)
    (h : c.accrueFee settleAt fraction period = .ok c') : c.fee.value ≤ c'.fee.value := by
  unfold accrueFee at h
  obtain ⟨_, hfraction, h⟩ := except_bind_eq_ok_iff.mp h
  split at h
  · cases h
  obtain ⟨elapsed, -, h⟩ := except_bind_eq_ok_iff.mp h
  split at h
  · cases h
  · unfold accrueFeeOver at h
    obtain ⟨share, hshare, h⟩ := except_bind_eq_ok_iff.mp h
    obtain ⟨charged, hcharged, h⟩ := except_bind_eq_ok_iff.mp h
    obtain ⟨fee, hadd, h⟩ := except_bind_eq_ok_iff.mp h
    cases h
    obtain ⟨rate, hrate, hcharge⟩ := Option.bind_eq_some_iff.mp (orOverflow_eq_ok_iff.mp hcharged)
    have hratenonneg := Decimal.value_nonneg_of_mul? (value_pos_of_checkFraction hfraction).le
      (value_nonneg_of_timeShare hshare) hrate
    have hnonneg := Decimal.value_nonneg_of_mul? hratenonneg hheld hcharge
    exact Decimal.le_of_add? hfee hnonneg (orOverflow_eq_ok_iff.mp hadd)

/-- A settlement of a balance that is not negative takes nothing off either total. -/
theorem le_of_settle (hfee : 0 ≤ c.fee.value) (hauc : 0 ≤ c.auc.value)
    (hheld : 0 ≤ c.balance.value) (h : c.settle window settleAt fraction period = .ok c') :
    c.fee.value ≤ c'.fee.value ∧ c.auc.value ≤ c'.auc.value := by
  unfold settle at h
  split at h
  · cases h
    exact ⟨le_refl _, le_refl _⟩
  · obtain ⟨elapsed, -, h⟩ := except_bind_eq_ok_iff.mp h
    obtain ⟨length, -, h⟩ := except_bind_eq_ok_iff.mp h
    obtain ⟨accrued, haccrued, h⟩ := except_bind_eq_ok_iff.mp h
    obtain ⟨charged, hcharged, h⟩ := except_bind_eq_ok_iff.mp h
    cases h
    have hle := le_auc_of_accrueAuc hauc hheld haccrued
    -- each half of a settlement leaves the total of the other one alone
    rw [accrueAuc_eq_ok haccrued] at hcharged
    have hle' := le_fee_of_accrueFee (c := { c with auc := accrued.auc }) hfee hheld hcharged
    rw [accrueFee_eq_ok hcharged]
    exact ⟨hle', hle⟩

/-! ## Many entries -/

/-- An entry that settles finds a balance that is not negative. -/
def SettlesNonnegative (c : Context) : Entry → Prop
  | .settle _ => .zero ≤ c.balance
  | .move _ => True

/-- Whenever entries settle, the balance is not negative. In between it may be. -/
def AllSettleNonnegative (window : Window) (fraction : Decimal) (period : Int64) (c : Context) :
    List Entry → Prop
  | [] => True
  | entry :: entries => c.SettlesNonnegative entry ∧
    ∀ next ∈ (c.enter window fraction period entry).toOption,
      next.AllSettleNonnegative window fraction period entries

instance : ∀ entry, Decidable (c.SettlesNonnegative entry)
  | .settle _ => inferInstanceAs (Decidable (.zero ≤ c.balance))
  | .move _ => inferInstanceAs (Decidable True)

instance decidableAllSettleNonnegative : ∀ (entries : List Entry) (c : Context),
    Decidable (c.AllSettleNonnegative window fraction period entries)
  | [], _ => inferInstanceAs (Decidable True)
  | entry :: entries, c =>
    have := decidableAllSettleNonnegative entries
    inferInstanceAs (Decidable (c.SettlesNonnegative entry ∧ ∀ next ∈ _, _))

/-- An entry takes nothing off either total. -/
theorem le_of_enter (hfee : 0 ≤ c.fee.value) (hauc : 0 ≤ c.auc.value)
    (hheld : c.SettlesNonnegative entry) (h : c.enter window fraction period entry = .ok c') :
    c.fee.value ≤ c'.fee.value ∧ c.auc.value ≤ c'.auc.value := by
  cases entry with
  | settle settleAt =>
    have hbalance := Decimal.value_le_iff.mpr hheld
    rw [Decimal.value_zero] at hbalance
    exact le_of_settle hfee hauc hbalance h
  | move delta =>
    rw [(applyDelta_eq_ok h).2]
    exact ⟨le_refl _, le_refl _⟩

/-- Entries take nothing off either total. -/
theorem le_of_enterAll (hfee : 0 ≤ c.fee.value) (hauc : 0 ≤ c.auc.value)
    (hheld : c.AllSettleNonnegative window fraction period entries)
    (h : c.enterAll window fraction period entries = .ok c') :
    c.fee.value ≤ c'.fee.value ∧ c.auc.value ≤ c'.auc.value := by
  induction entries generalizing c with
  | nil =>
    cases h
    exact ⟨le_refl _, le_refl _⟩
  | cons entry entries ih =>
    obtain ⟨hfirst, hrest⟩ := hheld
    rw [enterAll_cons] at h
    obtain ⟨next, hnext, h⟩ := except_bind_eq_ok_iff.mp h
    obtain ⟨hfee', hauc'⟩ := le_of_enter hfee hauc hfirst hnext
    obtain ⟨hfee'', hauc''⟩ := ih (hfee.trans hfee') (hauc.trans hauc')
      (hrest next (congrArg Except.toOption hnext)) h
    exact ⟨hfee'.trans hfee'', hauc'.trans hauc''⟩

theorem AllSettleNonnegative.append
    (h : c.AllSettleNonnegative window fraction period (before ++ after)) :
    c.AllSettleNonnegative window fraction period before ∧
      ∀ next, c.enterAll window fraction period before = .ok next →
        next.AllSettleNonnegative window fraction period after := by
  induction before generalizing c with
  | nil =>
    refine ⟨trivial, fun next hnext => ?_⟩
    cases hnext
    exact h
  | cons entry before ih =>
    obtain ⟨hfirst, hrest⟩ := h
    refine ⟨⟨hfirst, fun next hnext => (ih (hrest next hnext)).1⟩, fun last hlast => ?_⟩
    rw [enterAll_cons] at hlast
    obtain ⟨next, hnext, hlast⟩ := except_bind_eq_ok_iff.mp hlast
    exact (ih (hrest next (congrArg Except.toOption hnext))).2 last hlast

/-- From nothing accrued on, neither total ever goes down or below zero: after any entries the
totals are at least what they were after the first of them. The entries may be of any number, at
any instants and with any rounding, as long as all of them are made and no negative balance is
settled. A settlement checks its window, its fraction and its period itself. -/
theorem totals_monotone (hfee : start.fee.isZero) (hauc : start.auc.isZero)
    (hentered : start.enterAll window fraction period entries = .ok last)
    (hheld : start.AllSettleNonnegative window fraction period entries)
    (hbefore : before <+: after) (hafter : after <+: entries) :
    ∃ c c', start.enterAll window fraction period before = .ok c ∧
      start.enterAll window fraction period after = .ok c' ∧
      .zero ≤ c.fee ∧ c.fee ≤ c'.fee ∧ .zero ≤ c.auc ∧ c.auc ≤ c'.auc := by
  obtain ⟨more, rfl⟩ := hbefore
  obtain ⟨rest, rfl⟩ := hafter
  have hfee0 : start.fee.value = 0 := Decimal.value_eq_zero_iff.mpr (beq_iff_eq.mp hfee)
  have hauc0 : start.auc.value = 0 := Decimal.value_eq_zero_iff.mpr (beq_iff_eq.mp hauc)
  rw [enterAll_append] at hentered
  obtain ⟨c', hc', -⟩ := except_bind_eq_ok_iff.mp hentered
  have hfirst := hc'
  rw [enterAll_append] at hfirst
  obtain ⟨c, hc, hmore⟩ := except_bind_eq_ok_iff.mp hfirst
  obtain ⟨hheldBefore, hheldMore⟩ := hheld.append.1.append
  obtain ⟨hfee1, hauc1⟩ := le_of_enterAll hfee0.ge hauc0.ge hheldBefore hc
  rw [hfee0] at hfee1
  rw [hauc0] at hauc1
  obtain ⟨hfee2, hauc2⟩ := le_of_enterAll hfee1 hauc1 (hheldMore c hc) hmore
  simp only [← Decimal.value_le_iff, Decimal.value_zero]
  exact ⟨c, c', hc, hc', hfee1, hfee2, hauc1, hauc2⟩

/-- The largest balance there is, of which but one and a half are left after a third of the
window. The second settlement is rounded away, and the fee has a coarser scale than what it
charges. -/
theorem totals_of_largest_balance :
    let window : Window := ⟨0, 3⟩
    let fraction : Decimal := ⟨false, 125, 4, by decide, by decide⟩
    let start : Context :=
      .withBalance 0 ⟨false, 79228162514264337593543950335, 0, by decide, by decide⟩
    let entries : List Entry := [.settle 1, .move ⟨true, 79228162514264337593543950335, 0,
      by decide, by decide⟩, .move ⟨false, 15, 1, by decide, by decide⟩, .settle 2]
    start.fee.isZero ∧ start.auc.isZero ∧
      start.AllSettleNonnegative window fraction 7 entries ∧
      ∃ last, start.enterAll window fraction 7 entries = .ok last ∧
        ∃ c c', start.enterAll window fraction 7 [.settle 1] = .ok c ∧
          start.enterAll window fraction 7 entries = .ok c' ∧
          .zero ≤ c.fee ∧ c.fee ≤ c'.fee ∧ .zero ≤ c.auc ∧ c.auc ≤ c'.auc := by
  intro window fraction start entries
  have hheld : start.AllSettleNonnegative window fraction 7 entries := by decide +kernel
  have hsome : (start.enterAll window fraction 7 entries).toOption.isSome := by decide +kernel
  obtain ⟨last, hlast⟩ := Option.isSome_iff_exists.mp hsome
  have hbefore : [.settle 1] <+: entries := List.prefix_append _ _
  exact ⟨rfl, rfl, hheld, last, eq_ok_of_toOption hlast,
    totals_monotone rfl rfl (eq_ok_of_toOption hlast) hheld hbefore (List.prefix_refl _)⟩

end Context

end Custodian
