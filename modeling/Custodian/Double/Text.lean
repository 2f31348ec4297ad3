import Custodian.Double.Shortest

/-!
# The text of a double

Two forms are in use, both over the shortest digits. The *report form* is what JSON output
carries: positional with at least one digit after the point from `1e-5` up to below `1e16`,
and scientific outside, where the exponent always has a sign; a tie between two shortest
decimals goes to the even one. The *plain form* never has an exponent and has a point only
before digits of a fraction; a tie goes away from zero.
-/

namespace Custodian.Double

/-- The text of the digits and the number of digits before the point, which may be negative
or go past the digits. -/
def Digits.layout (d : Digits) : List Char × Int :=
  let text := Nat.toDigits 10 d.digits
  (text, text.length + d.exponent)

/-- Digits around a point that stands after the first `before` of them, zeros filling up on
either side. `fraction` is what stands for an empty fraction. -/
def positional (digits : List Char) (before : Int) (fraction : List Char) : List Char :=
  let n := before.toNat
  if before ≤ 0 then '0' :: '.' :: (List.replicate (-before).toNat '0' ++ digits)
  else if digits.length ≤ n then digits ++ List.replicate (n - digits.length) '0' ++ fraction
  else digits.take n ++ '.' :: digits.drop n

/-- One digit before the point, the rest after it, and the exponent with its sign. -/
def scientific (digits : List Char) (before : Int) : List Char :=
  let mantissa :=
    match digits with
    | first :: next :: rest => first :: '.' :: next :: rest
    | _ => digits
  let exponent := before - 1
  mantissa ++ 'e' :: (if exponent < 0 then '-' else '+') :: Nat.toDigits 10 exponent.natAbs

/-- The sign, if there is one, before the text of a magnitude. -/
def signed (negative : Bool) (magnitude : List Char) : String :=
  String.ofList (if negative then '-' :: magnitude else magnitude)

/-- The report form of a finite double. -/
def reportText (x : Float) : String :=
  let (negative, p) := parts x
  let (digits, before) := (p.shortest .toEven).layout
  signed negative <|
    if p.mantissa = 0 then ['0', '.', '0']
    else if -5 < before ∧ before ≤ 16 then positional digits before ['.', '0']
    else scientific digits before

/-- The plain form of a finite double. -/
def plainText (x : Float) : String :=
  let (negative, p) := parts x
  let (digits, before) := (p.shortest .up).layout
  signed negative <| if p.mantissa = 0 then ['0'] else positional digits before []

end Custodian.Double
