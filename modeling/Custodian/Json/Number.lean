import Custodian.Json.Basic
import Custodian.Text.Integer

/-!
# JSON numbers

A number without point and exponent that fits 64 bits is an integer; minus zero is not. Any
other number becomes a double: as many digits as fit 64 bits form a significand, which is
then multiplied or divided by one power of ten, each of the three steps rounding once.
Numbers that go beyond the largest double are refused.
-/

namespace Custodian.Json

-- Powers are those of the core library, whatever else is in scope; for that a numeral as an
-- exponent has its type.
attribute [local instance(1100)] instPowNat

open Custodian.Text (digit?)

/-! ## Digits -/

/-- The ASCII digits a text starts with, and what follows them. -/
def takeDigits : List Char → List Nat × List Char
  | [] => ([], [])
  | c :: rest =>
    match digit? c with
    | none => ([], c :: rest)
    | some d =>
      let (digits, rest) := takeDigits rest
      (d :: digits, rest)

/-- Appends digits to a significand as long as it fits 64 bits; gives back the digits left
over. -/
def absorb (significand : Nat) : List Nat → Nat × List Nat
  | [] => (significand, [])
  | d :: rest =>
    if 10 * significand + d < 2 ^ (64 : Nat) then absorb (10 * significand + d) rest
    else (significand, d :: rest)

/-! ## Doubles -/

/-- Divides by `10 ^ n`, at most 308 places at a time. -/
def divideByPower (x : Float) (n : Nat) : Float :=
  if h : n ≤ 308 then x / Float.ofScientific 1 false n
  else if x == 0 then x
  else divideByPower (x / Float.ofScientific 1 false 308) (n - 308)
  termination_by n
  decreasing_by omega

/-- The double of `significand * 10 ^ e`, unless it is beyond the largest one. -/
def scaledDouble? (significand : Nat) (e : Int) : Option Float :=
  let x := Float.ofScientific significand false 0
  if significand = 0 then some x
  else if e < 0 then some (divideByPower x e.natAbs)
  else if 308 < e then none
  else
    let y := x * Float.ofScientific 1 false e.natAbs
    if y.isInf then none else some y

/-! ## Literals -/

/-- The parts of a number: sign, digits before and after the point, exponent. -/
structure Literal where
  negative : Bool
  whole : List Nat
  fraction : Option (List Nat)
  exponent : Option Int
  deriving DecidableEq, Repr

/-- The value of a literal. -/
def Literal.value? (l : Literal) : Option Json :=
  let (whole, dropped) := absorb 0 l.whole
  let real (x : Float) : Json := .real (if l.negative then -x else x)
  match l.fraction, l.exponent with
  | none, none =>
    if dropped.isEmpty then
      if ¬ l.negative then some (.int whole)
      else if whole ≠ 0 ∧ whole ≤ 2 ^ (63 : Nat) then some (.int (-(whole : Int)))
      else some (real (Float.ofScientific whole false 0))
    else (scaledDouble? whole dropped.length).map real
  | fraction, exponent =>
    let digits := fraction.getD []
    let (significand, unused) := absorb whole digits
    let e : Int := dropped.length - (digits.length - unused.length : Nat) + exponent.getD 0
    (scaledDouble? significand e).map real

/-- Reads an exponent behind its mark. -/
def readExponentPart (text : List Char) : Option (Int × List Char) :=
  let (negative, rest) :=
    match text with
    | '-' :: rest => (true, rest)
    | '+' :: rest => (false, rest)
    | _ => (false, text)
  match takeDigits rest with
  | ([], _) => none
  | (digits, rest) =>
    let n : Nat := digits.foldl (fun acc d => 10 * acc + d) 0
    some (if negative then -(n : Int) else n, rest)

/-- Reads the literal a text starts with. An integer part of several digits does not start
with zero. -/
def readLiteral (text : List Char) : Option (Literal × List Char) := do
  let (negative, rest) :=
    match text with
    | '-' :: rest => (true, rest)
    | _ => (false, text)
  let (whole, rest) := takeDigits rest
  match whole with
  | [] => none
  | 0 :: _ :: _ => none
  | _ =>
    let (fraction, rest) ←
      match rest with
      | '.' :: rest =>
        match takeDigits rest with
        | ([], _) => none
        | (digits, rest) => some (some digits, rest)
      | _ => some (none, rest)
    let (exponent, rest) ←
      match rest with
      | 'e' :: rest => (readExponentPart rest).map fun (e, rest) => (some e, rest)
      | 'E' :: rest => (readExponentPart rest).map fun (e, rest) => (some e, rest)
      | _ => some (none, rest)
    return (⟨negative, whole, fraction, exponent⟩, rest)

/-- Reads the number a text starts with. -/
def readNumber (text : List Char) : Option (Json × List Char) := do
  let (literal, rest) ← readLiteral text
  return (← literal.value?, rest)

end Custodian.Json
