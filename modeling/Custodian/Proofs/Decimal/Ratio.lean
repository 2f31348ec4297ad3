import Custodian.Decimal.Ratio
import Custodian.Proofs.Decimal.Sign
import Custodian.Proofs.Decimal.Value
import Mathlib.Algebra.Order.Field.Basic

/-!
# A share is a quotient rounded once

A share is developed to as many digits as fit, rounded half to even there, and then rounded half
up to eight digits. The second rounding does not show the first one (`ratio?_eq_some`): for
lengths of time the first one moves the quotient by less than what lies between it and the next
midpoint of eight digits. A midpoint has nine digits, so the development reaches it as an integer
(`roundHalfUp_of_developed`); the quotient differs from it by at least one unit of the product of
both denominators, and the development stops only after so many digits that half a digit of it is
less.
-/

namespace Custodian.Decimal

-- Powers are those of the core library, whatever else is in scope; for that a numeral as an
-- exponent has its type.
attribute [local instance(1100)] instPowNat

/-! ## Rounding a quotient -/

/-- `n / d` rounded to the nearest integer, a half going up. -/
def roundHalfUp (n d : Nat) : Nat := (2 * n + d) / (2 * d)

section Rounding

variable {n d k m : Nat}

/-- An integer is reached from the midpoint below it on. -/
theorem succ_le_roundHalfUp_iff (hd : 0 < d) :
    k + 1 ≤ roundHalfUp n d ↔ (2 * k + 1) * d ≤ 2 * n := by
  have hsplit : (k + 1) * (2 * d) = (2 * k + 1) * d + d := by ring
  unfold roundHalfUp
  rw [Nat.le_div_iff_mul_le (by omega), hsplit, Nat.add_le_add_iff_right]

/-- Only the quotient counts. -/
theorem roundHalfUp_mul (hk : 0 < k) : roundHalfUp (n * k) (d * k) = roundHalfUp n d := by
  unfold roundHalfUp
  have hnum : 2 * (n * k) + d * k = (2 * n + d) * k := by ring
  have hden : 2 * (d * k) = 2 * d * k := by ring
  rw [hnum, hden, Nat.mul_div_mul_right _ _ hk]

theorem roundHalfUp_one (n : Nat) : roundHalfUp n 1 = n := by
  unfold roundHalfUp
  omega

/-- An integer is its own quotient by one, and none by more is larger. -/
theorem roundHalfUp_le (hd : 0 < d) : roundHalfUp n d ≤ n := by
  rcases h : roundHalfUp n d with _ | k
  · exact Nat.zero_le n
  · have hmid := (succ_le_roundHalfUp_iff hd).mp (Nat.le_of_eq h.symm)
    have hle := Nat.le_trans (Nat.le_mul_of_pos_right (2 * k + 1) hd) hmid
    omega

/-- Rounding half to even adds at most a half. -/
theorem roundHalfEven_mul_le (m d : Nat) : 2 * (roundHalfEven m d * d) ≤ 2 * m + d := by
  have hm := Nat.div_add_mod m d
  rw [Nat.mul_comm] at hm
  unfold roundHalfEven
  simp only
  split
  · rw [Nat.add_mul (m / d) 1 d]
    omega
  · omega

/-- Rounding half to even reaches an integer only if the quotient does, unless the quotient is
within a half of it. -/
theorem le_roundHalfEven_iff (hd : 0 < d) (hfar : m < k * d → 2 * m + d < 2 * (k * d)) :
    k ≤ roundHalfEven m d ↔ k * d ≤ m := by
  constructor
  · intro hle
    by_contra hlt
    have hmul := Nat.mul_le_mul_right d hle
    have hhalf := roundHalfEven_mul_le m d
    have := hfar (Nat.lt_of_not_le hlt)
    omega
  · intro hle
    exact Nat.le_trans ((Nat.le_div_iff_mul_le hd).mpr hle) (div_le_roundHalfEven m d)

/-- A quotient rounded to a grid of `1 / (2 * e * u)` first does not show that when it is rounded
to one of `1 / e`, if the half of the finer grid is less than `1 / d`. -/
theorem roundHalfUp_roundHalfEven {e u : Nat} (hd : 0 < d) (he : 0 < e) (hfine : d < 2 * u) :
    roundHalfUp (roundHalfEven (n * (2 * e * u)) d * e) (2 * e * u) = roundHalfUp (n * e) d := by
  have hu : 0 < u := by omega
  have hgrid : 0 < 2 * e * u := Nat.mul_pos (by omega) hu
  refine eq_of_forall_le_iff fun k => ?_
  rcases k with _ | k
  · simp only [Nat.zero_le]
  have hleft : (2 * k + 1) * (2 * e * u) = 2 * e * ((2 * k + 1) * u) := by ring
  have hright : 2 * (roundHalfEven (n * (2 * e * u)) d * e) =
      2 * e * roundHalfEven (n * (2 * e * u)) d := by ring
  rw [succ_le_roundHalfUp_iff hgrid, succ_le_roundHalfUp_iff hd, hleft, hright,
    Nat.mul_le_mul_left_iff (by omega)]
  have hmid : (2 * k + 1) * u * d = u * ((2 * k + 1) * d) := by ring
  have hquot : n * (2 * e * u) = u * (2 * (n * e)) := by ring
  rw [le_roundHalfEven_iff hd, hmid, hquot, Nat.mul_le_mul_left_iff hu]
  -- a quotient below the midpoint is below it by at least `1 / d`
  intro hlt
  rw [hmid, hquot] at hlt ⊢
  have hone := Nat.succ_le_of_lt (Nat.lt_of_mul_lt_mul_left hlt)
  have hmul := Nat.mul_le_mul_left u hone
  rw [Nat.mul_succ] at hmul
  omega

end Rounding

/-! ## The development -/

theorem widestGroup?_eq_none {q room : Nat} (h : widestGroup? q room = none) :
    room = 0 ∨ 2 ^ (96 : Nat) ≤ q * 10 := by
  rcases Nat.eq_zero_or_pos room with hroom | hroom
  · exact .inl hroom
  · right
    have hone : 1 ∈ (List.range' 1 (min 9 room)).reverse := by
      rw [List.mem_reverse, List.mem_range'_1]
      omega
    have hlarge := List.find?_eq_none.mp h 1 hone
    rw [decide_eq_true_eq, Nat.pow_one] at hlarge
    omega

/-- How a quotient is developed: `digits / 10 ^ places` is the quotient itself, or the quotient
rounded where there is no room for a further digit. -/
structure Developed (n d room digits places : Nat) : Prop where
  places_le : places ≤ room
  reached : digits * d = n * 10 ^ places ∨
    digits = roundHalfEven (n * 10 ^ places) d ∧
      (places = room ∨ 2 ^ (96 : Nat) ≤ n * 10 ^ places / d * 10)

/-- A development from `q + r / d` on. -/
theorem developed_develop {d : Nat} (hd : 0 < d) (room q r : Nat) (hr : r < d) :
    Developed (q * d + r) d room (develop d room q r).1 (develop d room q r).2 := by
  fun_induction develop d room q r with
  | case1 room q =>
    refine ⟨Nat.zero_le _, .inl ?_⟩
    rw [Nat.pow_zero, Nat.mul_one, Nat.add_zero]
  | case2 room q r hr0 hnone =>
    have hdiv : (q * d + r) / d = q := by
      rw [Nat.mul_comm, Nat.mul_add_div hd, Nat.div_eq_of_lt hr, Nat.add_zero]
    have hmod : (q * d + r) % d = r := by
      rw [Nat.mul_comm, Nat.mul_add_mod, Nat.mod_eq_of_lt hr]
    refine ⟨Nat.zero_le _, .inr ⟨?_, ?_⟩⟩
    · unfold roundHalfEven
      simp only [Nat.pow_zero, Nat.mul_one, hdiv, hmod]
    · rw [Nat.pow_zero, Nat.mul_one, hdiv]
      exact (widestGroup?_eq_none hnone).imp_left Eq.symm
  | case3 room q r hr0 x hx digits places heq ih =>
    have hbounds := widestGroup?_bounds hx
    obtain ⟨hplaces, hreached⟩ := ih (Nat.mod_lt _ hd)
    rw [heq] at hplaces hreached
    have hsame : (q * 10 ^ x + r * 10 ^ x / d) * d + r * 10 ^ x % d = (q * d + r) * 10 ^ x := by
      have hdivmod := Nat.div_add_mod (r * 10 ^ x) d
      have hexpand : (q * 10 ^ x + r * 10 ^ x / d) * d + r * 10 ^ x % d =
          q * d * 10 ^ x + (d * (r * 10 ^ x / d) + r * 10 ^ x % d) := by ring
      rw [hexpand, hdivmod]
      ring
    have hpow : ∀ places, (q * d + r) * 10 ^ x * 10 ^ places = (q * d + r) * 10 ^ (places + x) := by
      intro places
      rw [Nat.mul_assoc, ← Nat.pow_add, Nat.add_comm x]
    rw [hsame, hpow] at hreached
    refine ⟨by show places + x ≤ room; omega, hreached.imp_right fun h => ⟨h.1, h.2.imp_left ?_⟩⟩
    intro (hroom : places = room - x)
    show places + x = room
    omega

/-- A quotient that leaves no room for a further digit has its denominator bounded by the power
of ten. -/
theorem mul_le_of_full {n d places : Nat} (hfull : 2 ^ (96 : Nat) ≤ n * 10 ^ places / d * 10) :
    2 ^ (96 : Nat) * d ≤ n * (10 * 10 ^ places) := by
  calc 2 ^ (96 : Nat) * d ≤ n * 10 ^ places / d * 10 * d := Nat.mul_le_mul_right d hfull
    _ = 10 * (n * 10 ^ places / d * d) := by ring
    _ ≤ 10 * (n * 10 ^ places) := Nat.mul_le_mul_left _ (Nat.div_mul_le_self _ _)
    _ = n * (10 * 10 ^ places) := by ring

/-- Where a development of lengths of time stops before its end, it has more digits than the
second rounding keeps, and its last digit counts less than `1 / d`. -/
theorem fine_of_stopped {n d places : Nat} (hn : n < 2 ^ (63 : Nat)) (hd : 0 < d)
    (hd' : d < 2 ^ (63 : Nat))
    (hstop : places = 28 ∨ 2 ^ (95 : Nat) * d ≤ n * (10 * 10 ^ places)) :
    ∃ more, places = 9 + more ∧ d < 2 * (5 * 10 ^ more) := by
  rcases hstop with rfl | hfull
  · exact ⟨19, rfl, Nat.lt_trans hd' (by decide)⟩
  · have hten : 0 < 10 * 10 ^ places := Nat.mul_pos (by decide) (Nat.pow_pos (by decide))
    have hlarge : 2 ^ (32 : Nat) * d < 10 * 10 ^ places := by
      have hsplit : (2 : Nat) ^ (95 : Nat) = 2 ^ (63 : Nat) * 2 ^ (32 : Nat) := by decide
      have hlt := Nat.lt_of_le_of_lt hfull (Nat.mul_lt_mul_of_pos_right hn hten)
      rw [hsplit, Nat.mul_assoc] at hlt
      exact Nat.lt_of_mul_lt_mul_left hlt
    have hnine : 9 ≤ places := by
      by_contra hfew
      have hle : 10 ^ places ≤ 10 ^ (8 : Nat) := Nat.pow_le_pow_right (by decide) (by omega)
      omega
    obtain ⟨more, rfl⟩ := Nat.exists_eq_add_of_le hnine
    rw [Nat.pow_add] at hlarge
    exact ⟨more, rfl, by omega⟩

/-- Digits that are the quotient itself round as it does. -/
theorem roundHalfUp_of_exact {n d digits places : Nat} (hd : 0 < d)
    (hexact : digits * d = n * 10 ^ places) :
    roundHalfUp (digits * 10 ^ ratioScale) (10 ^ places) = roundHalfUp (n * 10 ^ ratioScale) d := by
  have hpow : 0 < 10 ^ places := Nat.pow_pos (by decide)
  have hsame : digits * 10 ^ ratioScale * d = n * 10 ^ ratioScale * 10 ^ places := by
    calc digits * 10 ^ ratioScale * d = digits * d * 10 ^ ratioScale := by ring
      _ = n * 10 ^ ratioScale * 10 ^ places := by rw [hexact]; ring
  rw [← roundHalfUp_mul hd, hsame, Nat.mul_comm _ d, roundHalfUp_mul hpow]

/-- Lengths of time that are rounded where no further digit has room round to eight digits as
their quotient does. -/
theorem roundHalfUp_of_stopped {n d places : Nat} (hn : n < 2 ^ (63 : Nat)) (hd : 0 < d)
    (hd' : d < 2 ^ (63 : Nat))
    (hstop : places = 28 ∨ 2 ^ (95 : Nat) * d ≤ n * (10 * 10 ^ places)) :
    roundHalfUp (roundHalfEven (n * 10 ^ places) d * 10 ^ ratioScale) (10 ^ places) =
      roundHalfUp (n * 10 ^ ratioScale) d := by
  obtain ⟨more, rfl, hfine⟩ := fine_of_stopped hn hd hd' hstop
  have hnine : 10 ^ (9 : Nat) = 2 * 10 ^ ratioScale * 5 := by decide
  rw [Nat.pow_add, hnine, Nat.mul_assoc (2 * 10 ^ ratioScale)]
  exact roundHalfUp_roundHalfEven hd (by decide) hfine

/-- Lengths of time are developed so far that the first rounding does not show in the second
one. -/
theorem roundHalfUp_of_developed {n d digits places : Nat} (hn : n < 2 ^ (63 : Nat))
    (hd : 0 < d) (hd' : d < 2 ^ (63 : Nat)) (h : Developed n d 28 digits places) :
    roundHalfUp (digits * 10 ^ ratioScale) (10 ^ places) = roundHalfUp (n * 10 ^ ratioScale) d := by
  obtain ⟨-, hexact | ⟨rfl, hstop⟩⟩ := h
  · exact roundHalfUp_of_exact hd hexact
  · apply roundHalfUp_of_stopped hn hd hd'
    refine hstop.imp_right fun hfull => ?_
    have := mul_le_of_full hfull
    omega

/-! ## Trailing zeros -/

/-- The first of two numbers with digits after the point is the second one without some trailing
zeros. -/
def Shortened (short long : Nat × Nat) : Prop :=
  ∃ zeros, long.1 = short.1 * 10 ^ zeros ∧ long.2 = short.2 + zeros

theorem Shortened.refl (p : Nat × Nat) : Shortened p p :=
  ⟨0, by rw [Nat.pow_zero, Nat.mul_one], rfl⟩

theorem Shortened.trans {p p' p'' : Nat × Nat} (h : Shortened p p') (h' : Shortened p' p'') :
    Shortened p p'' := by
  obtain ⟨zeros, hdigits, hplaces⟩ := h
  obtain ⟨zeros', hdigits', hplaces'⟩ := h'
  exact ⟨zeros + zeros', by rw [hdigits', hdigits, Nat.mul_assoc, Nat.pow_add], by omega⟩

theorem shortened_stripEights (q s : Nat) : Shortened (stripEights q s) (q, s) := by
  fun_induction stripEights q s with
  | case1 q s h ih =>
    refine ih.trans ⟨8, ?_, by omega⟩
    exact (Nat.div_mul_cancel (Nat.dvd_of_mod_eq_zero h.2.2)).symm
  | case2 q s => exact .refl _

theorem shortened_stripGroup (k : Nat) (p : Nat × Nat) : Shortened (stripGroup k p) p := by
  obtain ⟨q, s⟩ := p
  by_cases h : k ≤ s ∧ q % 2 ^ k = 0 ∧ q % 10 ^ k = 0
  · have hstrip : stripGroup k (q, s) = (q / 10 ^ k, s - k) := if_pos h
    rw [hstrip]
    exact ⟨k, (Nat.div_mul_cancel (Nat.dvd_of_mod_eq_zero h.2.2)).symm, (by omega)⟩
  · have hstrip : stripGroup k (q, s) = (q, s) := if_neg h
    rw [hstrip]
    exact .refl _

theorem shortened_stripZeros (q s : Nat) : Shortened (stripZeros q s) (q, s) :=
  (shortened_stripGroup 1 _).trans <| (shortened_stripGroup 2 _).trans <|
    (shortened_stripGroup 4 _).trans <| shortened_stripEights q s

/-- A number with digits after the point, rounded to those that a share keeps. -/
def atShareScale (p : Nat × Nat) : Nat := roundHalfUp (p.1 * 10 ^ ratioScale) (10 ^ p.2)

theorem Shortened.atShareScale {p p' : Nat × Nat} (h : Shortened p p') :
    Decimal.atShareScale p = Decimal.atShareScale p' := by
  obtain ⟨zeros, hdigits, hplaces⟩ := h
  have hpow : 0 < 10 ^ zeros := Nat.pow_pos (by decide)
  unfold Decimal.atShareScale
  rw [hdigits, hplaces, Nat.pow_add, Nat.mul_right_comm, roundHalfUp_mul hpow]

/-! ## The share -/

theorem atShareScale_quotient {n d : Nat} (hn : n < 2 ^ (63 : Nat)) (hd : 0 < d)
    (hd' : d < 2 ^ (63 : Nat)) :
    atShareScale (quotient n d) = roundHalfUp (n * 10 ^ ratioScale) d := by
  unfold quotient
  split
  · rename_i hwhole
    have hn' : n / d * d = n := Nat.div_mul_cancel (Nat.dvd_of_mod_eq_zero hwhole)
    show roundHalfUp (n / d * 10 ^ ratioScale) 1 = _
    rw [← roundHalfUp_mul hd, Nat.mul_right_comm, hn', Nat.one_mul]
  · have hdeveloped := developed_develop hd 28 (n / d) (n % d) (Nat.mod_lt n hd)
    rw [Nat.mul_comm (n / d), Nat.div_add_mod] at hdeveloped
    exact (shortened_stripZeros _ _).atShareScale.trans
      (roundHalfUp_of_developed hn hd hd' hdeveloped)

theorem roundPlaces_ratioScale (p : Nat × Nat) :
    (roundPlaces ratioScale p).2 ≤ ratioScale ∧
      (roundPlaces ratioScale p).1 * 10 ^ (ratioScale - (roundPlaces ratioScale p).2) =
        atShareScale p := by
  obtain ⟨q, s⟩ := p
  unfold roundPlaces atShareScale
  simp only
  split
  · rename_i hlong
    have hpow : 0 < 10 ^ ratioScale := by decide
    refine ⟨Nat.le_refl _, ?_⟩
    show roundHalfUp q (10 ^ (s - ratioScale)) * 10 ^ (ratioScale - ratioScale) = _
    rw [Nat.sub_self, Nat.pow_zero, Nat.mul_one, ← roundHalfUp_mul hpow, ← Nat.pow_add,
      Nat.sub_add_cancel (Nat.le_of_lt hlong)]
  · rename_i hshort
    have hle : s ≤ ratioScale := Nat.le_of_not_lt hshort
    have hpow : 0 < 10 ^ s := Nat.pow_pos (by decide)
    refine ⟨hle, ?_⟩
    rw [← roundHalfUp_one (q * 10 ^ (ratioScale - s)), ← roundHalfUp_mul hpow, Nat.one_mul,
      Nat.mul_assoc, ← Nat.pow_add, Nat.sub_add_cancel hle]

/-- There is a share for all lengths of time, and it is the quotient rounded half up to eight
digits after the point. -/
theorem ratio?_eq_some {n d : Nat} (hn : n < 2 ^ (63 : Nat)) (hd : 0 < d)
    (hd' : d < 2 ^ (63 : Nat)) :
    ∃ share, ratio? n d = some share ∧ share.negative = false ∧ share.scale ≤ ratioScale ∧
      share.mantissa * 10 ^ (ratioScale - share.scale) = roundHalfUp (n * 10 ^ ratioScale) d := by
  obtain ⟨hscale, hmantissa⟩ := roundPlaces_ratioScale (quotient n d)
  rw [atShareScale_quotient hn hd hd'] at hmantissa
  unfold ratio?
  generalize roundPlaces ratioScale (quotient n d) = p at hscale hmantissa ⊢
  have hfits : p.1 < 2 ^ (96 : Nat) ∧ p.2 ≤ 28 := by
    have hpow : 0 < 10 ^ (ratioScale - p.2) := Nat.pow_pos (by decide)
    have hle := Nat.le_trans (Nat.le_mul_of_pos_right p.1 hpow)
      (Nat.le_trans (Nat.le_of_eq hmantissa) (roundHalfUp_le hd))
    refine ⟨?_, Nat.le_trans hscale (by decide)⟩
    calc p.1 ≤ n * 10 ^ ratioScale := hle
      _ < 2 ^ (63 : Nat) * 10 ^ ratioScale := Nat.mul_lt_mul_of_pos_right hn (by decide)
      _ < 2 ^ (96 : Nat) := by decide
  exact ⟨⟨false, p.1, p.2, hfits.1, hfits.2⟩, dif_pos hfits, rfl, hscale, hmantissa⟩

/-- The value of a share, in units of its last digit. -/
theorem value_of_ratio? {n d : Nat} {share : Decimal} (hn : n < 2 ^ (63 : Nat)) (hd : 0 < d)
    (hd' : d < 2 ^ (63 : Nat)) (h : ratio? n d = some share) :
    share.value = roundHalfUp (n * 10 ^ ratioScale) d / 10 ^ ratioScale := by
  obtain ⟨share', hshare', hnegative, hscale, hmantissa⟩ := ratio?_eq_some hn hd hd'
  cases h.symm.trans hshare'
  have hcoefficient : share.coefficient = share.mantissa := by
    unfold coefficient
    rw [hnegative]
    exact if_neg Bool.false_ne_true
  have hsplit : (10 : ℚ) ^ ratioScale = 10 ^ (ratioScale - share.scale) * 10 ^ share.scale := by
    rw [← pow_add, Nat.sub_add_cancel hscale]
  rw [← hmantissa, hsplit, value, hcoefficient, div_eq_div_iff (by positivity) (by positivity)]
  push_cast
  ring

/-- A quotient is rounded by at most a half. -/
theorem abs_roundHalfUp_sub_le {n d : Nat} (hd : 0 < d) :
    |(roundHalfUp n d : ℚ) - n / d| ≤ 1 / 2 := by
  have hd' : (0 : ℚ) < d := by exact_mod_cast hd
  have hlow : 2 * n + d < (roundHalfUp n d + 1) * (2 * d) := by
    rw [Nat.mul_comm (roundHalfUp n d + 1)]
    exact Nat.lt_mul_div_succ _ (by omega)
  have hhigh : roundHalfUp n d * (2 * d) ≤ 2 * n + d := Nat.div_mul_le_self _ _
  have hlow' : (2 * n + d : ℚ) ≤ (roundHalfUp n d + 1) * (2 * d) := by exact_mod_cast hlow.le
  have hhigh' : (roundHalfUp n d * (2 * d) : ℚ) ≤ 2 * n + d := by exact_mod_cast hhigh
  rw [abs_le, le_sub_iff_add_le, sub_le_iff_le_add, ← sub_eq_neg_add, sub_le_iff_le_add,
    div_le_iff₀ hd', ← sub_le_iff_le_add', le_div_iff₀ hd']
  constructor
  · linarith
  · linarith

/-- A share differs from the quotient by at most half a unit of its last digit. -/
theorem abs_share_sub_le {n d : Nat} {share : Decimal} (hn : n < 2 ^ (63 : Nat)) (hd : 0 < d)
    (hd' : d < 2 ^ (63 : Nat)) (h : ratio? n d = some share) :
    |share.value - n / d| ≤ 1 / 2 / 10 ^ ratioScale := by
  have hunit : (0 : ℚ) < 10 ^ ratioScale := by positivity
  have hquot : (n / d : ℚ) = (n * 10 ^ ratioScale : Nat) / d / 10 ^ ratioScale := by
    push_cast
    field_simp
  rw [value_of_ratio? hn hd hd' h, hquot, ← sub_div, abs_div, abs_of_pos hunit,
    div_le_div_iff_of_pos_right hunit]
  exact abs_roundHalfUp_sub_le hd

end Custodian.Decimal
