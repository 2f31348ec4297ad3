/-!
# Decimals of ninety-six bits

Amounts, fractions and accrued totals are decimals `± mantissa / 10 ^ scale` with a
mantissa below `2 ^ 96` and at most 28 digits after the point. Two decimals of one value
may differ in scale (`1.5` and `1.50`), and the scale is kept and printed, so equality of
decimals is equality of all three parts. Comparison is by value.
-/

namespace Custodian

-- Powers are those of the core library, whatever else is in scope; for that a numeral as an
-- exponent has its type.
attribute [local instance(1100)] instPowNat

/-- A decimal: sign, mantissa and the number of digits after the point. The bounds are part
of the type, so no operation can hand out a decimal that would not fit a stored one. -/
structure Decimal where
  negative : Bool
  mantissa : Nat
  scale : Nat
  mantissa_lt : mantissa < 2 ^ (96 : Nat)
  scale_le : scale ≤ 28
  deriving DecidableEq, Repr

namespace Decimal

/-! ## Building decimals -/

/-- The decimal of the given parts, if they are within the bounds. -/
def make? (negative : Bool) (mantissa scale : Nat) : Option Decimal :=
  if h : mantissa < 2 ^ (96 : Nat) ∧ scale ≤ 28 then
    some ⟨negative, mantissa, scale, h.1, h.2⟩
  else none

/-- Zero without a sign and without digits after the point. -/
def zero : Decimal := ⟨false, 0, 0, by decide, by decide⟩

/-- One, without digits after the point. -/
def one : Decimal := ⟨false, 1, 0, by decide, by decide⟩

theorem make?_eq_some_iff {negative : Bool} {mantissa scale : Nat} {d : Decimal} :
    make? negative mantissa scale = some d ↔
      d.negative = negative ∧ d.mantissa = mantissa ∧ d.scale = scale := by
  obtain ⟨n, m, s, hm, hs⟩ := d
  unfold make?
  constructor
  · intro h
    split at h
    · cases h; exact ⟨rfl, rfl, rfl⟩
    · cases h
  · rintro ⟨rfl, rfl, rfl⟩
    rw [dif_pos ⟨hm, hs⟩]

/-! ## Value and sign -/

/-- Whether the value is zero, at any scale and with either sign. -/
def isZero (d : Decimal) : Bool := d.mantissa == 0

/-- The mantissa with its sign: the value is `coefficient / 10 ^ scale`. -/
def coefficient (d : Decimal) : Int := if d.negative then -(d.mantissa : Int) else d.mantissa

/-- The value with the other sign. A zero stays as it is. -/
def opposite (d : Decimal) : Decimal :=
  if d.isZero then d else { d with negative := !d.negative }

/-- What is left when a value is taken from itself: zero at the same scale, without a sign.
A zero stays as it is. -/
def cancelled (d : Decimal) : Decimal :=
  if d.isZero then d else ⟨false, 0, d.scale, by decide, d.scale_le⟩

/-- The same value, a zero without its sign. -/
def unsignedZero (d : Decimal) : Decimal :=
  if d.isZero then { d with negative := false } else d

/-! ## Comparison by value -/

/-- `a < b` compares the values exactly, whatever the scales. -/
instance : LT Decimal where
  lt a b := a.coefficient * 10 ^ b.scale < b.coefficient * 10 ^ a.scale

/-- `a ≤ b` compares the values exactly, whatever the scales. -/
instance : LE Decimal where
  le a b := a.coefficient * 10 ^ b.scale ≤ b.coefficient * 10 ^ a.scale

instance (a b : Decimal) : Decidable (a < b) :=
  inferInstanceAs (Decidable (a.coefficient * 10 ^ b.scale < b.coefficient * 10 ^ a.scale))

instance (a b : Decimal) : Decidable (a ≤ b) :=
  inferInstanceAs (Decidable (a.coefficient * 10 ^ b.scale ≤ b.coefficient * 10 ^ a.scale))

end Decimal

end Custodian
