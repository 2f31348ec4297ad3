import Custodian.Decimal.Basic

/-!
# Sums and products

A sum or product is formed exactly over the integers and then fitted into ninety-six bits:
`fit` drops the fewest digits after which the mantissa fits, and rounds once, a half going
to the even neighbour. When not even dropping every digit after the point is enough the
operation has overflowed and gives `none`.
-/

namespace Custodian.Decimal

-- Powers are those of the core library, whatever else is in scope; for that a numeral as an
-- exponent has its type.
attribute [local instance(1100)] instPowNat

/-! ## Fitting an exact result -/

/-- `m / d` rounded to the nearest integer, a half going to the even neighbour. -/
def roundHalfEven (m d : Nat) : Nat :=
  let q := m / d
  let r := m % d
  if d < 2 * r ∨ (2 * r = d ∧ q % 2 = 1) then q + 1 else q

/-- The fewest digits to drop from `m / 10 ^ s` so that the scale is at most 28 and what is
left of the mantissa is below `2 ^ 96`. Only digits after the point may be dropped. -/
def digitsToDrop? (m s : Nat) : Option Nat :=
  (List.range (s + 1)).find? fun k => decide (s ≤ k + 28 ∧ m / 10 ^ k < 2 ^ (96 : Nat))

/-- The decimal nearest to `± m / 10 ^ s` at the largest scale that fits. Rounding up to
`2 ^ 96` itself costs one digit more. -/
def fit (negative : Bool) (m s : Nat) : Option Decimal :=
  (digitsToDrop? m s).bind fun k =>
    let rounded := roundHalfEven m (10 ^ k)
    if rounded < 2 ^ (96 : Nat) then make? negative rounded (s - k)
    else if s = k then none
    else make? negative (roundHalfEven rounded 10) (s - k - 1)

/-! ## Operations -/

/-- The sum, unless it overflows. Adding to zero gives the other operand as it is, with its
scale; otherwise the larger scale is kept where it fits. -/
def add? (a b : Decimal) : Option Decimal :=
  if a.isZero then some b
  else if b.isZero then some a
  else
    let s := max a.scale b.scale
    let c := a.coefficient * 10 ^ (s - a.scale) + b.coefficient * 10 ^ (s - b.scale)
    fit (decide (c < 0)) c.natAbs s

/-- The product, unless it overflows. A product with zero is plain zero. Of two mantissas
below `2 ^ 32` a product beyond 47 digits after the point is plain zero too, and one that
rounds to zero loses its sign; any other product keeps its sign even when it rounds to
zero. -/
def mul? (a b : Decimal) : Option Decimal :=
  if a.isZero ∨ b.isZero then some zero
  else
    let s := a.scale + b.scale
    let product := fit (a.negative != b.negative) (a.mantissa * b.mantissa) s
    if a.mantissa < 2 ^ (32 : Nat) ∧ b.mantissa < 2 ^ (32 : Nat) then
      if 47 < s then some zero else product.map unsignedZero
    else product

end Custodian.Decimal
