import Custodian.Decimal.Arithmetic
import Mathlib.Algebra.Order.Field.Rat
import Mathlib.Data.Rat.Cast.Order
import Mathlib.Tactic.FieldSimp
import Mathlib.Tactic.Linarith
import Mathlib.Tactic.Ring

/-!
# The value of a decimal

A decimal stands for a rational (`Decimal.value`), and several decimals may stand for the same
one. Sums and products are rounded only where they have to be: what some decimal stands for is
found as it is (`AddsExactly.add?`, `MulsExactly.mul?`), whatever the scales of the
operands, and then there is no overflow either.
-/

namespace Custodian.Decimal

-- Powers of integers are those of the core library, whatever else is in scope; for that a
-- numeral as an exponent has its type.
attribute [local instance(1100)] instPowNat

/-- The rational that a decimal stands for. -/
def value (d : Decimal) : ℚ := d.coefficient / 10 ^ d.scale

/-- Whether some decimal stands for a rational. -/
def Representable (q : ℚ) : Prop := ∃ d : Decimal, d.value = q

@[simp] theorem value_zero : zero.value = 0 := by
  show ((0 : Int) : ℚ) / 10 ^ 0 = 0
  simp

theorem value_eq_zero_iff {d : Decimal} : d.value = 0 ↔ d.mantissa = 0 := by
  have hpow : (10 : ℚ) ^ d.scale ≠ 0 := by positivity
  unfold value coefficient
  rw [div_eq_zero_iff, or_iff_left hpow, Int.cast_eq_zero]
  split <;> omega

theorem value_le_iff {a b : Decimal} : a.value ≤ b.value ↔ a ≤ b := by
  have ha : (0 : ℚ) < 10 ^ a.scale := by positivity
  have hb : (0 : ℚ) < 10 ^ b.scale := by positivity
  unfold value
  rw [div_le_div_iff₀ ha hb]
  exact_mod_cast Iff.rfl

theorem value_lt_iff {a b : Decimal} : a.value < b.value ↔ a < b := by
  rw [lt_iff_not_ge, value_le_iff]
  exact Int.not_le

theorem value_opposite (d : Decimal) : d.opposite.value = -d.value := by
  unfold opposite
  split
  · rename_i h
    rw [value_eq_zero_iff.mpr (beq_iff_eq.mp h), neg_zero]
  · unfold value coefficient
    cases d.negative <;> simp [neg_div]

theorem value_cancelled (d : Decimal) : d.cancelled.value = 0 := by
  rw [value_eq_zero_iff]
  unfold cancelled
  split
  · rename_i h
    exact beq_iff_eq.mp h
  · rfl

/-! ## Fitting what fits -/

theorem roundHalfEven_of_dvd {m d : Nat} (hd : 0 < d) (h : d ∣ m) : roundHalfEven m d = m / d := by
  unfold roundHalfEven
  simp only [Nat.mod_eq_zero_of_dvd h]
  rw [if_neg (by omega)]

/-- Digits that are all zero are dropped without rounding. -/
theorem fit_of_dvd (negative : Bool) {m s zeros : Nat} (hzeros : zeros ≤ s)
    (hscale : s ≤ zeros + 28) (hdvd : 10 ^ zeros ∣ m) (hlt : m / 10 ^ zeros < 2 ^ (96 : Nat)) :
    ∃ d, fit negative m s = some d ∧ d.negative = negative ∧
      d.mantissa * 10 ^ s = m * 10 ^ d.scale := by
  rcases hdrop : digitsToDrop? m s with _ | k
  · -- the zeros themselves are enough
    have hnot := List.find?_eq_none.mp hdrop zeros (List.mem_range.mpr (by omega))
    exact absurd (decide_eq_true ⟨hscale, hlt⟩) hnot
  · unfold digitsToDrop? at hdrop
    obtain ⟨hfits, -, hleast⟩ := List.find?_range_eq_some.mp hdrop
    rw [decide_eq_true_eq] at hfits
    have hle : k ≤ zeros := by
      by_contra hlarge
      have hnot := hleast zeros (by omega)
      rw [Bool.not_eq_true', decide_eq_false_iff_not] at hnot
      exact hnot ⟨hscale, hlt⟩
    have hpow : 0 < 10 ^ k := Nat.pow_pos (by decide)
    have hdvd' : 10 ^ k ∣ m := Nat.dvd_trans (Nat.pow_dvd_pow 10 hle) hdvd
    have hscale' : s - k ≤ 28 := by omega
    refine ⟨⟨negative, m / 10 ^ k, s - k, hfits.2, hscale'⟩, ?_, rfl, ?_⟩
    · unfold fit digitsToDrop?
      rw [hdrop]
      simp only [Option.bind_some, roundHalfEven_of_dvd hpow hdvd', if_pos hfits.2]
      exact dif_pos ⟨hfits.2, hscale'⟩
    · show m / 10 ^ k * 10 ^ s = m * 10 ^ (s - k)
      have hsplit : 10 ^ s = 10 ^ k * 10 ^ (s - k) := by
        rw [← Nat.pow_add, Nat.add_sub_cancel' (Nat.le_trans hle hzeros)]
      rw [hsplit, ← Nat.mul_assoc, Nat.div_mul_cancel hdvd']

/-- An integer with the sign of a decimal. -/
def signed (negative : Bool) (m : Nat) : Int := if negative then -(m : Int) else m

theorem natAbs_signed (negative : Bool) (m : Nat) : (signed negative m).natAbs = m := by
  cases negative
  · exact Int.natAbs_natCast m
  · exact (Int.natAbs_neg _).trans (Int.natAbs_natCast m)

theorem signed_natAbs (c : Int) : signed (decide (c < 0)) c.natAbs = c := by
  unfold signed
  by_cases h : c < 0
  · rw [if_pos (decide_eq_true h)]
    omega
  · rw [decide_eq_false h]
    simp only [Bool.false_eq_true, if_false]
    omega

theorem value_eq_of_parts {d : Decimal} {negative : Bool} {m s : Nat}
    (hnegative : d.negative = negative) (hmantissa : d.mantissa * 10 ^ s = m * 10 ^ d.scale) :
    d.value = (signed negative m : ℚ) / 10 ^ s := by
  have hcross : (d.mantissa : ℚ) * 10 ^ s = m * 10 ^ d.scale := by exact_mod_cast hmantissa
  have hcoefficient : d.coefficient = signed negative d.mantissa := by rw [← hnegative]; rfl
  unfold value
  rw [hcoefficient, div_eq_div_iff (by positivity) (by positivity)]
  unfold signed
  split
  · push_cast
    linarith
  · push_cast
    exact hcross

/-- What some decimal stands for has no digits that would have to be dropped but zeros. -/
theorem exists_zeros_of_representable {c : Int} {s : Nat}
    (h : Representable ((c : ℚ) / 10 ^ s)) :
    ∃ zeros ≤ s, s ≤ zeros + 28 ∧ 10 ^ zeros ∣ c.natAbs ∧
      c.natAbs / 10 ^ zeros < 2 ^ (96 : Nat) := by
  obtain ⟨d, hd⟩ := h
  have hcross : d.mantissa * 10 ^ s = c.natAbs * 10 ^ d.scale := by
    unfold value at hd
    rw [div_eq_div_iff (by positivity) (by positivity)] at hd
    have hint : d.coefficient * 10 ^ s = c * 10 ^ d.scale := by exact_mod_cast hd
    have habs := congrArg Int.natAbs hint
    have hpow : ∀ k : Nat, ((10 : Int) ^ k).natAbs = 10 ^ k := fun k => Int.natAbs_pow 10 k
    rw [Int.natAbs_mul, Int.natAbs_mul, hpow, hpow] at habs
    rw [← natAbs_signed d.negative d.mantissa]
    exact habs
  have hscale := d.scale_le
  rcases Nat.le_total d.scale s with hle | hle
  · refine ⟨s - d.scale, Nat.sub_le _ _, by omega, ?_⟩
    have hpow : 0 < 10 ^ d.scale := Nat.pow_pos (by decide)
    have hzeros : d.mantissa * 10 ^ (s - d.scale) = c.natAbs := by
      have hsplit : 10 ^ s = 10 ^ (s - d.scale) * 10 ^ d.scale := by
        rw [← Nat.pow_add, Nat.sub_add_cancel hle]
      rw [hsplit, ← Nat.mul_assoc] at hcross
      exact Nat.eq_of_mul_eq_mul_right hpow hcross
    rw [← hzeros]
    refine ⟨Nat.dvd_mul_left _ _, ?_⟩
    rw [Nat.mul_div_cancel _ (Nat.pow_pos (by decide))]
    exact d.mantissa_lt
  · refine ⟨0, Nat.zero_le _, by omega, Nat.one_dvd _, ?_⟩
    have hpow : 0 < 10 ^ s := Nat.pow_pos (by decide)
    have hmore : d.mantissa = c.natAbs * 10 ^ (d.scale - s) := by
      have hsplit : 10 ^ d.scale = 10 ^ (d.scale - s) * 10 ^ s := by
        rw [← Nat.pow_add, Nat.sub_add_cancel hle]
      rw [hsplit, ← Nat.mul_assoc] at hcross
      exact Nat.eq_of_mul_eq_mul_right hpow hcross
    rw [Nat.pow_zero, Nat.div_one]
    refine Nat.lt_of_le_of_lt ?_ d.mantissa_lt
    rw [hmore]
    exact Nat.le_mul_of_pos_right _ (Nat.pow_pos (by decide))

/-- What some decimal stands for is fitted without rounding. -/
theorem fit_of_representable {negative : Bool} {m s : Nat}
    (h : Representable ((signed negative m : ℚ) / 10 ^ s)) :
    ∃ d, fit negative m s = some d ∧ d.value = (signed negative m : ℚ) / 10 ^ s := by
  obtain ⟨zeros, hzeros, hscale, hdvd, hlt⟩ := exists_zeros_of_representable h
  rw [natAbs_signed] at hdvd hlt
  obtain ⟨d, hfit, hnegative, hmantissa⟩ := fit_of_dvd negative hzeros hscale hdvd hlt
  exact ⟨d, hfit, value_eq_of_parts hnegative hmantissa⟩

/-- Some decimal stands for a rational with digits after the point if and only if enough of them
are zeros. -/
theorem representable_iff {c : Int} {s : Nat} :
    Representable ((c : ℚ) / 10 ^ s) ↔
      ∃ zeros ≤ s, s ≤ zeros + 28 ∧ 10 ^ zeros ∣ c.natAbs ∧
        c.natAbs / 10 ^ zeros < 2 ^ (96 : Nat) := by
  refine ⟨exists_zeros_of_representable, fun ⟨zeros, hzeros, hscale, hdvd, hlt⟩ => ?_⟩
  obtain ⟨d, -, hnegative, hmantissa⟩ := fit_of_dvd (decide (c < 0)) hzeros hscale hdvd hlt
  refine ⟨d, ?_⟩
  rw [value_eq_of_parts hnegative hmantissa, signed_natAbs]

/-! ## Exact sums and products -/

/-- Whether a sum need not be rounded: some decimal stands for it. -/
def AddsExactly (a b : Decimal) : Prop := Representable (a.value + b.value)

/-- Whether a product need not be rounded: some decimal stands for it. -/
def MulsExactly (a b : Decimal) : Prop := Representable (a.value * b.value)

theorem value_add_value (a b : Decimal) :
    a.value + b.value =
      ((a.coefficient * 10 ^ (max a.scale b.scale - a.scale) +
        b.coefficient * 10 ^ (max a.scale b.scale - b.scale) : Int) : ℚ) /
          10 ^ max a.scale b.scale := by
  generalize hs : max a.scale b.scale = s
  have hscale : ∀ d : Decimal, d.scale ≤ s →
      d.value = ((d.coefficient * 10 ^ (s - d.scale) : Int) : ℚ) / 10 ^ s := by
    intro d hd
    have hsplit : (10 : ℚ) ^ s = 10 ^ (s - d.scale) * 10 ^ d.scale := by
      rw [← pow_add, Nat.sub_add_cancel hd]
    unfold value
    rw [hsplit, div_eq_div_iff (by positivity) (by positivity)]
    push_cast
    ring
  rw [hscale a (by omega), hscale b (by omega), Int.cast_add, add_div]

theorem value_mul_value (a b : Decimal) :
    a.value * b.value =
      ((a.coefficient * b.coefficient : Int) : ℚ) / 10 ^ (a.scale + b.scale) := by
  unfold value
  rw [div_mul_div_comm, ← pow_add, ← Int.cast_mul]

instance (a b : Decimal) : Decidable (a.AddsExactly b) :=
  decidable_of_iff' _ ((value_add_value a b).symm ▸ representable_iff)

instance (a b : Decimal) : Decidable (a.MulsExactly b) :=
  decidable_of_iff' _ ((value_mul_value a b).symm ▸ representable_iff)

/-- A sum that some decimal stands for is found as it is. -/
theorem AddsExactly.add? {a b : Decimal} (h : a.AddsExactly b) :
    ∃ c, a.add? b = some c ∧ c.value = a.value + b.value := by
  unfold Decimal.add?
  split
  · rename_i ha
    refine ⟨b, rfl, ?_⟩
    rw [value_eq_zero_iff.mpr (beq_iff_eq.mp ha), zero_add]
  split
  · rename_i hb
    refine ⟨a, rfl, ?_⟩
    rw [value_eq_zero_iff.mpr (beq_iff_eq.mp hb), add_zero]
  · unfold AddsExactly at h
    rw [value_add_value] at h ⊢
    rw [← signed_natAbs (a.coefficient * _ + _)] at h ⊢
    exact fit_of_representable h

theorem value_unsignedZero (d : Decimal) : d.unsignedZero.value = d.value := by
  unfold unsignedZero
  split
  · rename_i h
    rw [value_eq_zero_iff.mpr (beq_iff_eq.mp h)]
    exact value_eq_zero_iff.mpr (beq_iff_eq.mp h)
  · rfl

/-- A product that some decimal stands for is found as it is. -/
theorem MulsExactly.mul? {a b : Decimal} (h : a.MulsExactly b) :
    ∃ c, a.mul? b = some c ∧ c.value = a.value * b.value := by
  have hproduct : a.value * b.value =
      (signed (a.negative != b.negative) (a.mantissa * b.mantissa) : ℚ) /
        10 ^ (a.scale + b.scale) := by
    rw [value_mul_value]
    congr 2
    unfold coefficient signed
    cases a.negative <;> cases b.negative <;> simp
  by_cases hzero : a.isZero ∨ b.isZero
  · refine ⟨zero, if_pos hzero, ?_⟩
    rw [value_zero]
    rcases hzero with ha | hb
    · rw [value_eq_zero_iff.mpr (beq_iff_eq.mp ha), zero_mul]
    · rw [value_eq_zero_iff.mpr (beq_iff_eq.mp hb), mul_zero]
  · unfold MulsExactly at h
    rw [hproduct] at h ⊢
    obtain ⟨c, hfit, hvalue⟩ := fit_of_representable h
    unfold Decimal.mul?
    rw [if_neg hzero]
    simp only [hfit]
    split
    · rename_i hsmall
      rw [if_neg, Option.map_some]
      · exact ⟨c.unsignedZero, rfl, (value_unsignedZero c).trans hvalue⟩
      · -- twenty zeros would have to be dropped from a product below `2 ^ 64`
        intro hlong
        obtain ⟨zeros, hzeros, hscale, hdvd, -⟩ := exists_zeros_of_representable h
        rw [natAbs_signed] at hdvd
        have hpos : 0 < a.mantissa * b.mantissa := by
          rw [not_or] at hzero
          refine Nat.mul_pos (Nat.pos_of_ne_zero fun h0 => hzero.1 (beq_iff_eq.mpr h0))
            (Nat.pos_of_ne_zero fun h0 => hzero.2 (beq_iff_eq.mpr h0))
        have hlarge := Nat.le_of_dvd hpos hdvd
        have htwenty : 10 ^ (20 : Nat) ≤ 10 ^ zeros := Nat.pow_le_pow_right (by decide) (by omega)
        have hproduct : a.mantissa * b.mantissa < 2 ^ (32 : Nat) * 2 ^ (32 : Nat) :=
          Nat.mul_lt_mul'' hsmall.1 hsmall.2
        omega
    · exact ⟨c, rfl, hvalue⟩

end Custodian.Decimal
