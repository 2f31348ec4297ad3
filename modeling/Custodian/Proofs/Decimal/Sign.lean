import Custodian.Decimal.Arithmetic

/-!
# Zeros without a sign

A decimal is `Plain` when it is not a zero with a sign. Sums of plain decimals are plain
(`Plain.add?`): rounding never brings a sum down to zero, because digits are only dropped from
a mantissa that does not fit.
-/

namespace Custodian.Decimal

-- Powers are those of the core library, whatever else is in scope; for that a numeral as an
-- exponent has its type.
attribute [local instance(1100)] instPowNat

/-- A zero has no sign. -/
def Plain (d : Decimal) : Prop := d.mantissa = 0 → d.negative = false

theorem plain_zero : zero.Plain := fun _ => rfl

theorem plain_unsignedZero (d : Decimal) : d.unsignedZero.Plain := by
  unfold unsignedZero
  split
  · exact fun _ => rfl
  · rename_i h
    exact fun h0 => absurd (beq_iff_eq.mpr h0) h

namespace Plain

variable {a b d : Decimal}

theorem unsignedZero (h : d.Plain) : d.unsignedZero = d := by
  unfold Decimal.unsignedZero
  split
  · rename_i h0
    have hneg := h (beq_iff_eq.mp h0)
    obtain ⟨n, m, s, hm, hs⟩ := d
    cases hneg
    rfl
  · rfl

theorem opposite (h : d.Plain) : d.opposite.Plain := by
  unfold Decimal.opposite
  split
  · exact h
  · rename_i h0
    exact fun h => absurd (beq_iff_eq.mpr h) h0

theorem cancelled (h : d.Plain) : d.cancelled.Plain := by
  unfold Decimal.cancelled
  split
  · exact h
  · exact fun _ => rfl

end Plain

/-! ## Rounding away from zero only by size -/

theorem div_le_roundHalfEven (m d : Nat) : m / d ≤ roundHalfEven m d := by
  unfold roundHalfEven
  simp only
  split
  · exact Nat.le_succ _
  · exact Nat.le_refl _

/-- Digits are dropped only from a mantissa that does not fit. -/
theorem le_div_of_digitsToDrop? {m s k : Nat} (hs : s ≤ 28) (h : digitsToDrop? m s = some k)
    (hk : 0 < k) : 2 ^ (96 : Nat) ≤ m / 10 ^ (k - 1) := by
  unfold digitsToDrop? at h
  have hfewer := (List.find?_range_eq_some.mp h).2.2 (k - 1) (by omega)
  rw [Bool.not_eq_true', decide_eq_false_iff_not] at hfewer
  apply Nat.le_of_not_lt
  intro hlt
  exact hfewer ⟨by omega, hlt⟩

/-- A positive mantissa stays positive when it is fitted. -/
theorem mantissa_pos_of_fit {negative : Bool} {m s : Nat} {d : Decimal} (hs : s ≤ 28)
    (hm : 0 < m) (h : fit negative m s = some d) : 0 < d.mantissa := by
  unfold fit at h
  obtain ⟨k, hk, h⟩ := Option.bind_eq_some_iff.mp h
  have hle := div_le_roundHalfEven m (10 ^ k)
  have hpos : 0 < m / 10 ^ k := by
    by_cases hk0 : k = 0
    · rw [hk0, Nat.pow_zero, Nat.div_one]
      exact hm
    · have hlarge := le_div_of_digitsToDrop? hs hk (Nat.pos_of_ne_zero hk0)
      obtain ⟨j, rfl⟩ := Nat.exists_eq_succ_of_ne_zero hk0
      rw [Nat.succ_sub_one] at hlarge
      rw [Nat.succ_eq_add_one, Nat.pow_succ, ← Nat.div_div_eq_div_mul]
      omega
  simp only at h
  split at h
  · rw [(make?_eq_some_iff.mp h).2.1]
    omega
  · rename_i hlarge
    split at h
    · cases h
    · have hten := div_le_roundHalfEven (roundHalfEven m (10 ^ k)) 10
      rw [(make?_eq_some_iff.mp h).2.1]
      omega

theorem negative_of_fit {negative : Bool} {m s : Nat} {d : Decimal}
    (h : fit negative m s = some d) : d.negative = negative := by
  unfold fit at h
  obtain ⟨k, -, h⟩ := Option.bind_eq_some_iff.mp h
  simp only at h
  split at h
  · exact (make?_eq_some_iff.mp h).1
  · split at h
    · cases h
    · exact (make?_eq_some_iff.mp h).1

/-- The sum of plain decimals is plain. -/
theorem Plain.add? {a b c : Decimal} (ha : a.Plain) (hb : b.Plain) (h : a.add? b = some c) :
    c.Plain := by
  unfold Decimal.add? at h
  split at h
  · cases h
    exact hb
  · split at h
    · cases h
      exact ha
    · have hscale : max a.scale b.scale ≤ 28 := by
        have := a.scale_le
        have := b.scale_le
        omega
      intro h0
      rw [negative_of_fit h, decide_eq_false_iff_not]
      intro hneg
      have hpos := mantissa_pos_of_fit hscale (Int.natAbs_pos.mpr (Int.ne_of_lt hneg)) h
      omega

end Custodian.Decimal
