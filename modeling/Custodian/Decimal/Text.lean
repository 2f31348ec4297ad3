import Custodian.Decimal.Basic

/-!
# The text of a decimal

A decimal is written positionally with exactly as many digits after the point as its scale
says, at least one before it, and a minus sign in front if it has one. No point is written
at scale 0.
-/

namespace Custodian.Decimal

/-- The digits of `n`, padded with zeros on the left to at least `width` digits. -/
def paddedDigits (n width : Nat) : List Char :=
  let digits := Nat.toDigits 10 n
  List.replicate (width - digits.length) '0' ++ digits

/-- The characters of the written form. -/
def chars (d : Decimal) : List Char :=
  let digits := paddedDigits d.mantissa (d.scale + 1)
  let whole := digits.length - d.scale
  (if d.negative then ['-'] else []) ++
    if d.scale = 0 then digits else digits.take whole ++ '.' :: digits.drop whole

/-- The written form. -/
def toText (d : Decimal) : String := String.ofList d.chars

instance : ToString Decimal where
  toString := toText

end Custodian.Decimal
