import Custodian.Proofs.Accrual.Overflow
import Mathlib.Algebra.Order.Round
import Mathlib.Data.Nat.Find
import Mathlib.Data.Rat.Floor

/-!
# Shares of time are correctly rounded

A share of time is a quotient rounded twice, and still what rounding it once to eight digits
gives (`timeShare_eq_round`). The first rounding is described here without a development
(`RoundedToFit`): half to even, to as many digits as ninety-six bits and 28 digits after the point
allow. However those digits are found, they do not show in the eight that are kept
(`RoundedToFit.roundHalfUp_eq`).
-/

namespace Custodian

-- Powers of integers are those of the core library, whatever else is in scope; for that a
-- numeral as an exponent has its type.
attribute [local instance(1100)] instPowNat

namespace Decimal

variable {n d digits places : Nat}

/-- Half up on natural numbers is rounding to the nearest integer, midpoints away from zero. -/
theorem round_eq_roundHalfUp (hd : 0 < d) : round ((n : ℚ) / d) = (roundHalfUp n d : Int) := by
  have hd' : (d : ℚ) ≠ 0 := by positivity
  have hhalf : (n : ℚ) / d + 1 / 2 = (2 * n + d : Nat) / (2 * d : Nat) := by
    push_cast
    field_simp
  rw [round_eq, hhalf, Rat.floor_natCast_div_natCast, roundHalfUp, Int.natCast_ediv]

/-- `digits / 10 ^ places` is `n / d`, rounded half to even where it has to be, with as many
digits as ninety-six bits and 28 digits after the point allow. -/
structure RoundedToFit (n d digits places : Nat) : Prop where
  places_le : places ≤ 28
  digits_lt : digits < 2 ^ (96 : Nat)
  nearest : digits = roundHalfEven (n * 10 ^ places) d
  /-- A further digit would be a zero, or there is no room for it. -/
  last : digits * d = n * 10 ^ places ∨ places = 28 ∨
    2 ^ (96 : Nat) ≤ roundHalfEven (n * 10 ^ (places + 1)) d

/-- Lengths of time have a quotient that fits. -/
theorem exists_roundedToFit (hn : n < 2 ^ (63 : Nat)) (hd : 0 < d) :
    ∃ digits places, RoundedToFit n d digits places := by
  let fits := fun places => roundHalfEven (n * 10 ^ places) d < 2 ^ (96 : Nat)
  have hwhole : fits 0 := by
    show roundHalfEven (n * 10 ^ 0) d < 2 ^ (96 : Nat)
    have hhalf := roundHalfEven_mul_le (n * 10 ^ 0) d
    have hle : roundHalfEven (n * 10 ^ 0) d ≤ roundHalfEven (n * 10 ^ 0) d * d :=
      Nat.le_mul_of_pos_right _ hd
    by_contra hlarge
    have hmul := Nat.mul_le_mul_right d (Nat.le_of_not_lt hlarge)
    omega
  -- the longest of those that fit
  let places := Nat.findGreatest fits 28
  have hplaces : places ≤ 28 := Nat.findGreatest_le 28
  refine ⟨roundHalfEven (n * 10 ^ places) d, places, hplaces, ?_, rfl, ?_⟩
  · exact Nat.findGreatest_spec (Nat.zero_le 28) hwhole
  · right
    by_cases hroom : places = 28
    · exact .inl hroom
    · have hnot : ¬fits (places + 1) :=
        Nat.findGreatest_is_greatest (Nat.lt_succ_self places) (by omega)
      exact .inr (Nat.le_of_not_lt hnot)

/-- Where a further digit has no room the denominator is bounded by the power of ten. -/
theorem mul_le_of_no_room (hfull : 2 ^ (96 : Nat) ≤ roundHalfEven (n * 10 ^ (places + 1)) d) :
    2 ^ (95 : Nat) * d ≤ n * (10 * 10 ^ places) := by
  have hhalf := roundHalfEven_mul_le (n * 10 ^ (places + 1)) d
  have hmul := Nat.mul_le_mul_right d hfull
  have hpow : n * 10 ^ (places + 1) = n * (10 * 10 ^ places) := by
    rw [Nat.pow_succ, Nat.mul_comm 10]
  omega

/-- The first rounding of lengths of time does not show in the second one. -/
theorem RoundedToFit.roundHalfUp_eq (h : RoundedToFit n d digits places)
    (hn : n < 2 ^ (63 : Nat)) (hd : 0 < d) (hd' : d < 2 ^ (63 : Nat)) :
    roundHalfUp (digits * 10 ^ ratioScale) (10 ^ places) = roundHalfUp (n * 10 ^ ratioScale) d := by
  obtain ⟨-, -, hnearest, hexact | hstop⟩ := h
  · exact roundHalfUp_of_exact hd hexact
  · rw [hnearest]
    exact roundHalfUp_of_stopped hn hd hd' (hstop.imp_right mul_le_of_no_room)

end Decimal

/-- A natural length of time as the rational that it counts. -/
theorem cast_toNat_of_nonneg {length : Int64} (h : 0 ≤ length) :
    ((length.toInt.toNat : Nat) : ℚ) = length.toInt := by
  rw [Int64.le_iff_toInt_le, Int64.toInt_zero] at h
  exact_mod_cast Int.toNat_of_nonneg h

/-- There is a share of any two lengths of time, and it is their quotient rounded to eight digits
after the point, midpoints away from zero. Rounding the quotient first, half to even, to as many
digits as fit a decimal, is possible and makes no difference to that. -/
theorem timeShare_eq_round {elapsed total : Int64} (helapsed : 0 ≤ elapsed) (htotal : 0 < total) :
    (∃ share, timeShare elapsed total = .ok share ∧ share.scale ≤ 8 ∧
      share.value = round ((elapsed.toInt : ℚ) / total.toInt * 10 ^ 8) / 10 ^ 8) ∧
    (∃ digits places,
      Decimal.RoundedToFit elapsed.toInt.toNat total.toInt.toNat digits places) ∧
    ∀ digits places, Decimal.RoundedToFit elapsed.toInt.toNat total.toInt.toNat digits places →
      round ((digits : ℚ) / 10 ^ places * 10 ^ 8) =
        round ((elapsed.toInt : ℚ) / total.toInt * 10 ^ 8) := by
  have hn : elapsed.toInt.toNat < 2 ^ (63 : Nat) := by
    have := elapsed.toInt_lt
    omega
  obtain ⟨hd, hd'⟩ := toNat_of_pos htotal
  rw [← cast_toNat_of_nonneg helapsed, ← cast_toNat_of_nonneg (Int64.le_of_lt htotal)]
  generalize hnum : elapsed.toInt.toNat = n at hn ⊢
  generalize hden : total.toInt.toNat = d at hd hd' ⊢
  -- what all roundings come to, as a quotient of natural numbers
  have hround : ∀ num den : Nat, 0 < den → round ((num : ℚ) / den * 10 ^ 8) =
      (Decimal.roundHalfUp (num * 10 ^ Decimal.ratioScale) den : Int) := by
    intro num den hden
    have hquot :
        (num : ℚ) / den * 10 ^ 8 = (num * 10 ^ Decimal.ratioScale : Nat) / (den : Nat) := by
      unfold Decimal.ratioScale
      push_cast
      ring
    rw [hquot, Decimal.round_eq_roundHalfUp hden]
  rw [hround n d hd]
  refine ⟨?_, Decimal.exists_roundedToFit hn hd, ?_⟩
  · obtain ⟨share, hshare, -, hscale, -⟩ := Decimal.ratio?_eq_some hn hd hd'
    refine ⟨share, ?_, hscale, ?_⟩
    · unfold timeShare
      rw [hnum, hden, hshare]
    · rw [Decimal.value_of_ratio? hn hd hd' hshare, Int.cast_natCast]
      rfl
  · intro digits places hfit
    have hpow : ((10 : ℚ) ^ places) = ((10 ^ places : Nat) : ℚ) := by push_cast; rfl
    rw [hpow, hround digits _ (Nat.pow_pos (by decide)), hfit.roundHalfUp_eq hn hd hd']

/-- A share that lies in the middle between two of eight digits is the larger of them. -/
theorem timeShare_of_midpoint :
    (0 : Int64) ≤ 1 ∧ (0 : Int64) < 200000000 ∧
      ∃ share, timeShare 1 200000000 = .ok share ∧ share.value = 1 / 10 ^ 8 := by
  have helapsed : (0 : Int64) ≤ 1 := by decide
  have htotal : (0 : Int64) < 200000000 := by decide
  refine ⟨helapsed, htotal, ?_⟩
  obtain ⟨⟨share, hshare, -, hvalue⟩, -⟩ := timeShare_eq_round helapsed htotal
  refine ⟨share, hshare, ?_⟩
  have hmiddle : (((1 : Int64).toInt : ℚ) / (200000000 : Int64).toInt * 10 ^ 8) = 2⁻¹ := by
    rw [show (1 : Int64).toInt = 1 from rfl, show (200000000 : Int64).toInt = 200000000 from rfl]
    norm_num
  rw [hvalue, hmiddle, round_two_inv]
  norm_num

end Custodian
