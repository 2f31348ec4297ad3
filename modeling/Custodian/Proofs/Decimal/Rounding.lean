import Custodian.Proofs.Decimal.Sign
import Custodian.Proofs.Decimal.Value

/-!
# Rounded sums and products

A sum or a product that no decimal stands for is rounded. Two facts of that rounding live here:

* it depends on the values of the operands alone, not on their scales: operands of equal values have
  sums and products of equal values, or none (`map_value_add?_congr`, `map_value_mul?_congr`);
* it never crosses a decimal (`le_value_of_fit`): what is not below a decimal is not rounded to
  anything below it. So a sum is not below what a non-negative amount is added to (`le_of_add?`),
  even where the sum has a coarser scale.
-/

namespace Custodian.Decimal

-- Powers of integers are those of the core library, whatever else is in scope; for that a
-- numeral as an exponent has its type.
attribute [local instance(1100)] instPowNat

/-! ## Dropping digits -/

section Rounding

variable {m d k s : Nat}

theorem roundHalfEven_le (m d : Nat) : roundHalfEven m d ≤ m / d + 1 := by
  unfold roundHalfEven
  simp only
  split
  · exact Nat.le_refl _
  · exact Nat.le_succ _

/-- Only the quotient counts. -/
theorem roundHalfEven_mul (m d : Nat) (hk : 0 < k) :
    roundHalfEven (m * k) (d * k) = roundHalfEven m d := by
  have hhalf : d * k < 2 * (m % d * k) ↔ d < 2 * (m % d) := by
    rw [← Nat.mul_assoc]
    exact Nat.mul_lt_mul_right hk
  have htie : 2 * (m % d * k) = d * k ↔ 2 * (m % d) = d := by
    rw [← Nat.mul_assoc]
    exact Nat.mul_left_inj (Nat.ne_of_gt hk)
  unfold roundHalfEven
  simp only [Nat.mul_div_mul_right _ _ hk, Nat.mul_mod_mul_right, hhalf, htie]

/-- The digits that are dropped are the fewest ones after which the rest fits. -/
theorem digitsToDrop?_eq_some_iff :
    digitsToDrop? m s = some k ↔
      k ≤ s ∧ (s ≤ k + 28 ∧ m / 10 ^ k < 2 ^ (96 : Nat)) ∧
        ∀ j < k, s ≤ j + 28 → 2 ^ (96 : Nat) ≤ m / 10 ^ j := by
  unfold digitsToDrop?
  rw [List.find?_range_eq_some, decide_eq_true_eq, List.mem_range, and_left_comm]
  refine and_congr Nat.lt_succ_iff (and_congr_right fun _ => forall₂_congr fun j _ => ?_)
  rw [Bool.not_eq_true', decide_eq_false_iff_not, not_and, Nat.not_lt]

/-- What is left after dropping digits, where one digit more goes if rounding has carried. -/
theorem fit_of_digits (negative : Bool) (h : digitsToDrop? m s = some k) :
    fit negative m s =
      if roundHalfEven m (10 ^ k) < 2 ^ (96 : Nat) then
        make? negative (roundHalfEven m (10 ^ k)) (s - k)
      else if s - k = 0 then none
      else make? negative (roundHalfEven (roundHalfEven m (10 ^ k)) 10) (s - k - 1) := by
  have hle := (digitsToDrop?_eq_some_iff.mp h).1
  have hnone : s = k ↔ s - k = 0 := by omega
  unfold fit
  rw [h]
  simp only [Option.bind_some, hnone]

end Rounding

/-! ## Only the value counts -/

section Congruence

variable {m s : Nat} {a a' b b' : Decimal}

/-- One more zero makes one more digit to drop, if any has to be dropped at all. -/
theorem digitsToDrop?_mul_ten {k : Nat} (h : digitsToDrop? m s = some k) (hk : 0 < k) :
    digitsToDrop? (m * 10) (s + 1) = some (k + 1) := by
  obtain ⟨hle, ⟨hscale, hlt⟩, hfewer⟩ := digitsToDrop?_eq_some_iff.mp h
  have hten : ∀ j, m * 10 / 10 ^ (j + 1) = m / 10 ^ j := fun j => by
    rw [Nat.pow_succ, Nat.mul_div_mul_right _ _ (by decide)]
  rw [digitsToDrop?_eq_some_iff, hten]
  refine ⟨by omega, ⟨by omega, hlt⟩, fun j hj hscale' => ?_⟩
  rcases j with _ | j
  · have hall := hfewer 0 hk (by omega)
    rw [Nat.pow_zero, Nat.div_one] at hall ⊢
    omega
  · rw [hten]
    exact hfewer j (by omega) (by omega)

theorem digitsToDrop?_mul_ten_of_none (h : digitsToDrop? m s = none) :
    digitsToDrop? (m * 10) (s + 1) = none := by
  unfold digitsToDrop? at h ⊢
  rw [List.find?_eq_none] at h ⊢
  intro j hj hfits
  rw [List.mem_range] at hj
  rw [decide_eq_true_eq] at hfits
  obtain ⟨hscale, hlt⟩ := hfits
  rcases j with _ | j
  · refine h 0 (List.mem_range.mpr (by omega)) (decide_eq_true ⟨by omega, ?_⟩)
    rw [Nat.pow_zero, Nat.div_one] at hlt ⊢
    omega
  · refine h j (List.mem_range.mpr (by omega)) (decide_eq_true ⟨by omega, ?_⟩)
    rwa [Nat.pow_succ, Nat.mul_div_mul_right _ _ (by decide)] at hlt

/-- One more zero after the point does not change what a result is rounded to. -/
theorem map_value_fit_mul_ten (negative : Bool) (m s : Nat) :
    (fit negative (m * 10) (s + 1)).map value = (fit negative m s).map value := by
  rcases h : digitsToDrop? m s with _ | _ | k
  · unfold fit
    rw [h, digitsToDrop?_mul_ten_of_none h]
    rfl
  · -- without digits to drop the result is exact
    obtain ⟨-, ⟨hscale, hlt⟩, -⟩ := digitsToDrop?_eq_some_iff.mp h
    rw [Nat.pow_zero, Nat.div_one] at hlt
    have hsame : (signed negative (m * 10) : ℚ) / 10 ^ (s + 1) = signed negative m / 10 ^ s := by
      rw [div_eq_div_iff (by positivity) (by positivity), pow_succ]
      unfold signed
      split
      · push_cast
        ring
      · push_cast
        ring
    have hrepresentable : Representable ((signed negative m : ℚ) / 10 ^ s) :=
      ⟨⟨negative, m, s, hlt, by omega⟩, rfl⟩
    obtain ⟨d, hfit, hvalue⟩ := fit_of_representable hrepresentable
    rw [← hsame] at hrepresentable
    obtain ⟨d', hfit', hvalue'⟩ := fit_of_representable hrepresentable
    rw [hfit, hfit', Option.map_some, Option.map_some, hvalue, hvalue', hsame]
  · have hround : roundHalfEven (m * 10) (10 ^ (k + 1 + 1)) = roundHalfEven m (10 ^ (k + 1)) :=
      roundHalfEven_mul m (10 ^ (k + 1)) (by decide)
    rw [fit_of_digits negative h, fit_of_digits negative (digitsToDrop?_mul_ten h (Nat.succ_pos k)),
      hround, Nat.add_sub_add_right]

/-- What an integer with digits after the point is rounded to depends on its value alone. -/
theorem map_value_fit_congr {c c' : Int} {s s' : Nat} (h : (c : ℚ) / 10 ^ s = c' / 10 ^ s') :
    (fit (decide (c < 0)) c.natAbs s).map value =
      (fit (decide (c' < 0)) c'.natAbs s').map value := by
  have hzeros : ∀ (c : Int) (s e : Nat),
      (fit (decide (c * 10 ^ e < 0)) (c * 10 ^ e).natAbs (s + e)).map value =
        (fit (decide (c < 0)) c.natAbs s).map value := by
    intro c s e
    have hpow : (0 : Int) < 10 ^ e := Int.pow_pos (by decide)
    have hsign : c * 10 ^ e < 0 ↔ c < 0 := by
      rw [Int.mul_neg_iff]
      omega
    have habs : (c * 10 ^ e).natAbs = c.natAbs * 10 ^ e := by
      rw [Int.natAbs_mul, Int.natAbs_pow]
      rfl
    rw [habs]
    simp only [hsign]
    clear hpow hsign habs
    induction e with
    | zero => rw [Nat.pow_zero, Nat.mul_one, Nat.add_zero]
    | succ e ih => rw [Nat.pow_succ, ← Nat.mul_assoc, ← Nat.add_assoc, map_value_fit_mul_ten, ih]
  -- both are found with as many digits after the point as the two have together
  rw [← hzeros c s s', ← hzeros c' s' s, Nat.add_comm s' s]
  have hcross : c * 10 ^ s' = c' * 10 ^ s := by
    rw [div_eq_div_iff (by positivity) (by positivity)] at h
    exact_mod_cast h
  rw [hcross]

/-- What some decimal stands for is not rounded. -/
theorem map_value_fit_of_value {c : Int} (h : a.value = (c : ℚ) / 10 ^ s) :
    (fit (decide (c < 0)) c.natAbs s).map value = some a.value := by
  have hrepresentable : Representable ((signed (decide (c < 0)) c.natAbs : ℚ) / 10 ^ s) := by
    rw [signed_natAbs]
    exact ⟨a, h⟩
  obtain ⟨d, hfit, hvalue⟩ := fit_of_representable hrepresentable
  rw [signed_natAbs] at hvalue
  rw [hfit, Option.map_some, hvalue, h]

/-- A sum is rounded as its value is, whatever the scales of the operands. -/
theorem map_value_add? {c : Int} (h : a.value + b.value = (c : ℚ) / 10 ^ s) :
    (a.add? b).map value = (fit (decide (c < 0)) c.natAbs s).map value := by
  unfold add?
  split
  · rename_i ha
    rw [value_eq_zero_iff.mpr (beq_iff_eq.mp ha), zero_add] at h
    exact (map_value_fit_of_value h).symm
  split
  · rename_i hb
    rw [value_eq_zero_iff.mpr (beq_iff_eq.mp hb), add_zero] at h
    exact (map_value_fit_of_value h).symm
  · rw [value_add_value] at h
    exact map_value_fit_congr h

/-- Sums of equal values are equal, or both overflow. -/
theorem map_value_add?_congr (ha : a.value = a'.value) (hb : b.value = b'.value) :
    (a.add? b).map value = (a'.add? b').map value := by
  have h := value_add_value a b
  rw [map_value_add? h]
  rw [ha, hb] at h
  rw [map_value_add? h]

/-- A product below `2 ^ 64` of more than 47 digits after the point is rounded to zero. -/
theorem map_value_fit_of_small (negative : Bool) (hm : m < 2 ^ (64 : Nat)) (hs : 47 < s)
    (hs' : s ≤ 56) : (fit negative m s).map value = some 0 := by
  have hdrop : digitsToDrop? m s = some (s - 28) := by
    rw [digitsToDrop?_eq_some_iff]
    refine ⟨by omega, ⟨by omega, ?_⟩, fun j hj hscale => by omega⟩
    exact Nat.lt_of_le_of_lt (Nat.div_le_self _ _) (Nat.lt_trans hm (by decide))
  have hlarge : 10 ^ (20 : Nat) ≤ 10 ^ (s - 28) := Nat.pow_le_pow_right (by decide) (by omega)
  have hround : roundHalfEven m (10 ^ (s - 28)) = 0 := by
    have hlt : m < 10 ^ (s - 28) := by omega
    unfold roundHalfEven
    simp only [Nat.div_eq_of_lt hlt, Nat.mod_eq_of_lt hlt]
    rw [if_neg (by omega)]
  rw [fit_of_digits negative hdrop, hround, if_pos (by decide)]
  have hscale : s - (s - 28) ≤ 28 := by omega
  have hmake : make? negative 0 (s - (s - 28)) = some ⟨negative, 0, _, by decide, hscale⟩ :=
    dif_pos ⟨by decide, hscale⟩
  rw [hmake, Option.map_some]
  exact congrArg some (value_eq_zero_iff.mpr rfl)

/-- A product is rounded as its value is, whatever the scales of the operands. -/
theorem map_value_mul? {c : Int} (h : a.value * b.value = (c : ℚ) / 10 ^ s) :
    (a.mul? b).map value = (fit (decide (c < 0)) c.natAbs s).map value := by
  unfold mul?
  by_cases hzero : a.isZero ∨ b.isZero
  · rw [if_pos hzero]
    refine (map_value_fit_of_value ?_).symm
    rw [← h, value_zero, eq_comm, mul_eq_zero]
    exact hzero.imp (fun ha => value_eq_zero_iff.mpr (beq_iff_eq.mp ha))
      fun hb => value_eq_zero_iff.mpr (beq_iff_eq.mp hb)
  · rw [if_neg hzero]
    rw [value_mul_value] at h
    rw [← map_value_fit_congr h]
    have hnatAbs : (a.coefficient * b.coefficient).natAbs = a.mantissa * b.mantissa := by
      rw [Int.natAbs_mul]
      exact congrArg₂ (· * ·) (natAbs_signed _ _) (natAbs_signed _ _)
    have hsign : decide (a.coefficient * b.coefficient < 0) = (a.negative != b.negative) := by
      rw [not_or] at hzero
      have hpos : 0 < a.mantissa * b.mantissa :=
        Nat.mul_pos (Nat.pos_of_ne_zero fun h0 => hzero.1 (beq_iff_eq.mpr h0))
          (Nat.pos_of_ne_zero fun h0 => hzero.2 (beq_iff_eq.mpr h0))
      have hpos' : 0 < (a.mantissa : Int) * b.mantissa := by exact_mod_cast hpos
      unfold coefficient
      cases a.negative <;> cases b.negative <;>
        simp only [Bool.false_eq_true, if_true, if_false, Int.neg_mul, Int.mul_neg, Int.neg_neg,
          Bool.bne_true, Bool.bne_false, Bool.not_true, Bool.not_false, decide_eq_true_eq,
          decide_eq_false_iff_not] <;>
        omega
    rw [hnatAbs, hsign]
    simp only
    split
    · rename_i hsmall
      have hscale := a.scale_le
      have hscale' := b.scale_le
      have hproduct : a.mantissa * b.mantissa < 2 ^ (32 : Nat) * 2 ^ (32 : Nat) :=
        Nat.mul_lt_mul'' hsmall.1 hsmall.2
      split
      · rename_i hlong
        rw [map_value_fit_of_small _ hproduct hlong (by omega), Option.map_some, value_zero]
      · rw [Option.map_map]
        exact congrArg (Option.map · _) (funext value_unsignedZero)
    · rfl

/-- Products of equal values are equal, or both overflow. -/
theorem map_value_mul?_congr (ha : a.value = a'.value) (hb : b.value = b'.value) :
    (a.mul? b).map value = (a'.mul? b').map value := by
  have h := value_mul_value a b
  rw [map_value_mul? h]
  rw [ha, hb] at h
  rw [map_value_mul? h]

end Congruence

/-! ## Rounding crosses no decimal -/

section Monotone

variable {m d n s : Nat} {negative : Bool} {a b c : Decimal}

theorem le_roundHalfEven_of_mul_le (hd : 0 < d) (h : n * d ≤ m) : n ≤ roundHalfEven m d :=
  Nat.le_trans ((Nat.le_div_iff_mul_le hd).mpr h) (div_le_roundHalfEven m d)

theorem two_mul_le_roundHalfEven (m : Nat) (hd : 0 < d) :
    2 * m ≤ 2 * (roundHalfEven m d * d) + d := by
  have hsplit := Nat.div_add_mod' m d
  have hlt := Nat.mod_lt m hd
  unfold roundHalfEven
  simp only
  split
  · rw [Nat.add_one_mul (m / d)]
    omega
  · omega

/-- What is not below a decimal is not below it after digits have been dropped: either digits
enough are left for the decimal, or the rest is beyond every decimal of its scale. -/
theorem mul_pow_le_roundHalfEven {k : Nat} (h : digitsToDrop? m s = some k)
    (ha : a.mantissa * 10 ^ s ≤ m * 10 ^ a.scale) :
    a.mantissa * 10 ^ (s - k) ≤ roundHalfEven m (10 ^ k) * 10 ^ a.scale := by
  obtain ⟨hle, ⟨hscale, hlt⟩, hfewer⟩ := digitsToDrop?_eq_some_iff.mp h
  rcases Nat.lt_or_ge (s - k) a.scale with hcoarse | hfine
  · rcases k with _ | j
    · rwa [Nat.pow_zero, roundHalfEven_of_dvd (by decide) (Nat.one_dvd m), Nat.div_one]
    · obtain ⟨e, he⟩ := Nat.exists_eq_add_of_lt hcoarse
      have hbound := a.scale_le
      have hpow : 0 < 10 ^ j := Nat.pow_pos (by decide)
      have hlarge : 2 ^ (96 : Nat) * 10 ^ j ≤ m :=
        (Nat.le_div_iff_mul_le hpow).mp (hfewer j (Nat.lt_succ_self j) (by omega))
      have hround := two_mul_le_roundHalfEven m (Nat.pow_pos (a := 10) (n := j + 1) (by decide))
      generalize roundHalfEven m (10 ^ (j + 1)) = rounded at hround ⊢
      have htwenty : 2 * 2 ^ (96 : Nat) ≤ rounded * 20 + 10 := by
        apply Nat.le_of_mul_le_mul_right _ hpow
        rw [Nat.pow_succ] at hround
        calc 2 * 2 ^ (96 : Nat) * 10 ^ j ≤ 2 * m := by omega
          _ ≤ 2 * (rounded * (10 ^ j * 10)) + 10 ^ j * 10 := hround
          _ = (rounded * 20 + 10) * 10 ^ j := by ring
      have hmantissa := a.mantissa_lt
      have hten : a.mantissa ≤ rounded * 10 ^ (e + 1) := by
        have hpow : 10 ^ (1 : Nat) ≤ 10 ^ (e + 1) := Nat.pow_le_pow_right (by decide) (by omega)
        exact Nat.le_trans (by omega) (Nat.mul_le_mul_left rounded hpow)
      have hscales : a.scale = e + 1 + (s - (j + 1)) := by omega
      rw [hscales, Nat.pow_add, ← Nat.mul_assoc]
      exact Nat.mul_le_mul_right _ hten
  · obtain ⟨e, he⟩ := Nat.exists_eq_add_of_le hfine
    have hs : s = a.scale + (e + k) := by omega
    have hrest : a.mantissa * 10 ^ e ≤ roundHalfEven m (10 ^ k) := by
      apply le_roundHalfEven_of_mul_le (Nat.pow_pos (by decide))
      apply Nat.le_of_mul_le_mul_right (c := 10 ^ a.scale) _ (Nat.pow_pos (by decide))
      calc a.mantissa * 10 ^ e * 10 ^ k * 10 ^ a.scale = a.mantissa * 10 ^ s := by
            rw [hs, Nat.pow_add, Nat.pow_add]
            ring
        _ ≤ m * 10 ^ a.scale := ha
    rw [he, Nat.pow_add, Nat.mul_comm (10 ^ a.scale), ← Nat.mul_assoc]
    exact Nat.mul_le_mul_right _ hrest

theorem value_of_nonneg (h : a.negative = false) : a.value = (a.mantissa : ℚ) / 10 ^ a.scale := by
  unfold value coefficient
  rw [h]
  rfl

theorem value_nonpos_of_negative (h : a.negative = true) : a.value ≤ 0 := by
  unfold value coefficient
  rw [h]
  refine div_nonpos_of_nonpos_of_nonneg ?_ (by positivity)
  rw [if_pos rfl]
  push_cast
  rw [neg_nonpos]
  exact Nat.cast_nonneg _

/-- What is not below a decimal is fitted to nothing below it, even if rounding has carried. -/
theorem mul_pow_le_of_fit (h : fit negative m s = some c)
    (ha : a.mantissa * 10 ^ s ≤ m * 10 ^ a.scale) :
    a.mantissa * 10 ^ c.scale ≤ c.mantissa * 10 ^ a.scale := by
  have hdigits : ∃ k, digitsToDrop? m s = some k := by
    unfold fit at h
    obtain ⟨k, hk, -⟩ := Option.bind_eq_some_iff.mp h
    exact ⟨k, hk⟩
  obtain ⟨k, hk⟩ := hdigits
  have hround := mul_pow_le_roundHalfEven hk ha
  have hcarry : roundHalfEven m (10 ^ k) ≤ 2 ^ (96 : Nat) :=
    Nat.le_trans (roundHalfEven_le _ _) (digitsToDrop?_eq_some_iff.mp hk).2.1.2
  rw [fit_of_digits negative hk] at h
  generalize roundHalfEven m (10 ^ k) = rounded at h hround hcarry
  generalize s - k = t at h hround
  split at h
  · obtain ⟨-, hmantissa, hscale⟩ := make?_eq_some_iff.mp h
    rwa [hmantissa, hscale]
  split at h
  · cases h
  · -- the carry leaves a power of two, and its last digit is rounded away
    rename_i hfull ht
    obtain ⟨-, hmantissa, hscale⟩ := make?_eq_some_iff.mp h
    obtain ⟨t, rfl⟩ := Nat.exists_eq_succ_of_ne_zero ht
    obtain rfl : rounded = 2 ^ (96 : Nat) := Nat.le_antisymm hcarry (Nat.not_lt.mp hfull)
    have hten : roundHalfEven (2 ^ (96 : Nat)) 10 = 7922816251426433759354395034 := by
      decide +kernel
    rw [hten] at hmantissa
    rw [hmantissa, hscale, Nat.succ_sub_one]
    rw [Nat.succ_eq_add_one, Nat.pow_succ, ← Nat.mul_assoc] at hround
    omega

/-- What is not below a decimal is not rounded to anything below it. -/
theorem le_value_of_fit (h : fit false m s = some c) (ha : a.value ≤ (m : ℚ) / 10 ^ s) :
    a.value ≤ c.value := by
  rw [value_of_nonneg (negative_of_fit h)]
  rcases hsign : a.negative with _ | _
  · rw [value_of_nonneg hsign, div_le_div_iff₀ (by positivity) (by positivity)] at ha ⊢
    have hcross : a.mantissa * 10 ^ s ≤ m * 10 ^ a.scale := by exact_mod_cast ha
    exact_mod_cast mul_pow_le_of_fit h hcross
  · exact (value_nonpos_of_negative hsign).trans (div_nonneg (Nat.cast_nonneg _) (by positivity))

theorem le_value_of_rounded {i : Int} (hi : 0 ≤ (i : ℚ) / 10 ^ s) (ha : a.value ≤ (i : ℚ) / 10 ^ s)
    (h : (fit (decide (i < 0)) i.natAbs s).map value = some c.value) : a.value ≤ c.value := by
  have hnonneg : 0 ≤ i := by
    have hpow : (0 : ℚ) < 10 ^ s := by positivity
    rw [le_div_iff₀ hpow, zero_mul] at hi
    exact_mod_cast hi
  obtain ⟨m, rfl⟩ := Int.eq_ofNat_of_zero_le hnonneg
  rw [decide_eq_false (Int.not_lt.mpr hnonneg)] at h
  obtain ⟨d, hfit, hvalue⟩ := Option.map_eq_some_iff.mp h
  rw [← hvalue]
  exact le_value_of_fit hfit ha

/-- A sum is not below a non-negative decimal that something non-negative is added to, whatever
has been rounded. -/
theorem le_of_add? (ha : 0 ≤ a.value) (hb : 0 ≤ b.value) (h : a.add? b = some c) :
    a.value ≤ c.value := by
  have hsum := value_add_value a b
  have hrounded := map_value_add? hsum
  rw [h, Option.map_some] at hrounded
  refine le_value_of_rounded ?_ ?_ hrounded.symm
  · rw [← hsum]
    exact add_nonneg ha hb
  · rw [← hsum]
    exact le_add_of_nonneg_right hb

/-- A product of non-negative decimals is not negative. -/
theorem value_nonneg_of_mul? (ha : 0 ≤ a.value) (hb : 0 ≤ b.value) (h : a.mul? b = some c) :
    0 ≤ c.value := by
  have hproduct := value_mul_value a b
  have hrounded := map_value_mul? hproduct
  rw [h, Option.map_some] at hrounded
  rw [← value_zero]
  have hnonneg := mul_nonneg ha hb
  rw [hproduct] at hnonneg
  exact le_value_of_rounded hnonneg (value_zero.symm ▸ hnonneg) hrounded.symm

end Monotone

end Custodian.Decimal
