import Custodian.Decimal.Basic

/-!
# Decimals as doubles

Reports carry decimals as doubles. A decimal without digits after the point becomes the
nearest double. Otherwise its integer part and its fraction are converted on their own and
added, and the sum is rounded to the decimal's scale by a multiplication and a division
with that power of ten, all in doubles.
-/

namespace Custodian.Decimal

-- Powers are those of the core library, whatever else is in scope.
attribute [local instance(1100)] instPowNat

/-- The double nearest to a natural number. -/
def nearestDouble (n : Nat) : Float := Float.ofScientific n false 0

/-- The power `base ^ n` by repeated squaring, multiplied onto `acc`, lowest bit of `n`
first. -/
def squaringPower (acc base : Float) (n : Nat) : Float :=
  let acc := if n % 2 = 1 then acc * base else acc
  if h : n / 2 = 0 then acc else squaringPower acc (base * base) (n / 2)
  termination_by n
  decreasing_by omega

/-- The magnitude `mantissa / 10 ^ scale` as a double. -/
def magnitudeDouble (mantissa scale : Nat) : Float :=
  if scale = 0 then nearestDouble mantissa
  else
    let whole := nearestDouble (mantissa / 10 ^ scale)
    let fraction := nearestDouble (mantissa % 10 ^ scale) / nearestDouble (10 ^ scale)
    if fraction == 0 then whole
    else
      let power := squaringPower 1 10 scale
      ((whole + fraction) * power).round / power

/-- The double a report carries for the decimal. -/
def toDouble (d : Decimal) : Float :=
  let x := magnitudeDouble d.mantissa d.scale
  if d.negative then -x else x

end Custodian.Decimal
