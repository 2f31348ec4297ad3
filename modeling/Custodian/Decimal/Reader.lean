import Custodian.Decimal.Arithmetic
import Custodian.Text.Integer

/-!
# Reading decimals

The positional form is an optional sign, digits with at most one point among them, and
underscores anywhere after the first digit. Zeros after the point count for the scale. Once
the scale has reached 28, or a digit after the point would carry the mantissa to `2 ^ 96`,
the next digit only rounds (five or more goes up) and the digits behind it are skipped.

Where the positional form fails and the text holds an `e`, the scientific form is tried: a
positional mantissa, the `e`, and an exponent of at most 28 that moves the point.
-/

namespace Custodian.Decimal

-- Powers are those of the core library, whatever else is in scope; for that a numeral as an
-- exponent has its type.
attribute [local instance(1100)] instPowNat

open Custodian.Text (digit? readWord32)

/-! ## Faults -/

/-- Why a text is not a decimal. -/
inductive SyntaxFault where
  | empty
  | secondPoint
  | leadingSeparator
  | unknownCharacter
  | noDigits
  | tooManyDigits
  | roundedTooLarge
  | malformedExponent
  | exponentTooLarge (exponent : Nat)
  | scientificOverflow
  deriving DecidableEq, Repr

/-- The wording of a fault. -/
def SyntaxFault.message : SyntaxFault → String
  | empty => "Invalid decimal: empty"
  | secondPoint => "Invalid decimal: two decimal points"
  | leadingSeparator => "Invalid decimal: must start lead with a number"
  | unknownCharacter => "Invalid decimal: unknown character"
  | noDigits => "Invalid decimal: no digits found"
  | tooManyDigits => "Invalid decimal: overflow from too many digits"
  | roundedTooLarge => "Invalid decimal: overflow from mantissa after rounding"
  | malformedExponent => "Failed to parse"
  | exponentTooLarge n => s!"Scale exceeds the maximum precision allowed: {n} > 28"
  | scientificOverflow => "Number exceeds maximum value that can be represented."

/-- The fault of a character that is out of place. -/
def SyntaxFault.ofChar : Char → SyntaxFault
  | '.' => secondPoint
  | '_' => leadingSeparator
  | _ => unknownCharacter

/-! ## The positional form -/

/-- From this mantissa on, the next digit is taken into a register of 128 bits, and
underscores in front of a rounding digit are skipped. -/
def wideThreshold : Nat := (2 ^ (64 : Nat) - 1) / 10 - 255

/-- What has been read of a positional form: the value so far, without its sign, and whether
a point, a digit and a mantissa past `wideThreshold` have been met. -/
structure Reading where
  value : Decimal
  point : Bool
  digits : Bool
  wide : Bool
  deriving DecidableEq, Repr

/-- Nothing read yet. -/
def Reading.start : Reading := ⟨zero, false, false, false⟩

/-- Adds one unit in the last place. If that reaches `2 ^ 96`, the last digit after the point
goes, and without one the text is too large. -/
def roundUp (d : Decimal) : Except SyntaxFault Decimal :=
  if h : d.mantissa + 1 < 2 ^ (96 : Nat) then
    .ok { d with mantissa := d.mantissa + 1, mantissa_lt := h }
  else if d.scale = 0 then .error .roundedTooLarge
  else
    .ok ⟨d.negative, (d.mantissa + 5) / 10, d.scale - 1,
      by have := d.mantissa_lt; omega, by have := d.scale_le; omega⟩

/-- Rounds by the character after the last digit kept, and accepts only digits and
underscores behind it. An underscore rounds like the digit 0. -/
def roundBy (d : Decimal) (c : Char) (rest : List Char) : Except SyntaxFault Decimal :=
  match digit? c with
  | none => if c = '_' then close d else .error (.ofChar c)
  | some n => (if 5 ≤ n then roundUp d else .ok d).bind close
where
  /-- The value, if what follows it is only digits and underscores. -/
  close (d : Decimal) : Except SyntaxFault Decimal :=
    match rest.find? fun c => (digit? c).isNone && c != '_' with
    | none => .ok d
    | some c => .error (.ofChar c)

/-- Reads the digits, point and underscores of a positional form. -/
def readPositional (st : Reading) : List Char → Except SyntaxFault Decimal
  | [] => if st.digits then .ok st.value else .error .noDigits
  | c :: rest =>
    match digit? c with
    | some n =>
      match make? false (10 * st.value.mantissa + n)
          (if st.point then st.value.scale + 1 else st.value.scale) with
      | none => if st.point then roundBy st.value c rest else .error .tooManyDigits
      | some value =>
        if value.scale = 28 then
          match if st.wide then rest.dropWhile (· = '_') else rest with
          | [] => .ok value
          | c' :: rest' => roundBy value c' rest'
        else
          readPositional
            { st with
              value := value
              digits := true
              wide := st.wide || decide (wideThreshold ≤ value.mantissa) } rest
    | none =>
      if c = '.' ∧ ¬ st.point then readPositional { st with point := true } rest
      else if c = '_' ∧ st.digits then readPositional st rest
      else .error (.ofChar c)

/-- Reads a positional form with its sign. A zero is read without a sign. -/
def ofPositional (text : List Char) : Except SyntaxFault Decimal :=
  match text with
  | [] => .error .empty
  | '-' :: rest =>
    (readPositional .start rest).map fun d => if d.isZero then d else { d with negative := true }
  | '+' :: rest => readPositional .start rest
  | _ => readPositional .start text

/-! ## The scientific form -/

/-- Moves the point `n` places to the left. Digits that would go past scale 28 are cut off
first, rounding half up by the first of them; the sign stays even on a zero. -/
def shiftLeft (d : Decimal) (n : Nat) : Decimal :=
  if fits : d.scale + n ≤ 28 then { d with scale := d.scale + n, scale_le := fits }
  else
    let cut := d.scale + n - 28
    ⟨d.negative, (d.mantissa + 5 * 10 ^ (cut - 1)) / 10 ^ cut, 28, by
      have hm := d.mantissa_lt
      have hcut : 10 ^ cut = 10 * 10 ^ (cut - 1) := by
        rw [← Nat.pow_succ']; congr 1; omega
      have hpos : 0 < 10 ^ (cut - 1) := Nat.pos_of_ne_zero (by simp)
      rw [Nat.div_lt_iff_lt_mul (by omega), hcut]
      have : d.mantissa * 10 ^ (cut - 1) ≤ (2 ^ (96 : Nat) - 1) * 10 ^ (cut - 1) :=
        Nat.mul_le_mul_right _ (by omega)
      have : d.mantissa ≤ d.mantissa * 10 ^ (cut - 1) := Nat.le_mul_of_pos_right _ hpos
      omega, by decide⟩

/-- The product with the power of ten `10 ^ n`, `n` at most 28: in one step up to `10 ^ 18`,
beyond that in two, the first being `10 ^ 19`. -/
def timesPowerOfTen? (d : Decimal) (n : Nat) : Option Decimal :=
  let times (d : Decimal) (n : Nat) : Option Decimal := (make? false (10 ^ n) 0).bind d.mul?
  if n ≤ 18 then times d n else (times d 19).bind fun d => times d (n - 19)

/-- The mantissa and scale without zeros at the end of the fraction. -/
def dropTrailingZeros (m : Nat) : Nat → Nat × Nat
  | 0 => (m, 0)
  | s + 1 => if m % 10 = 0 then dropTrailingZeros (m / 10) s else (m, s + 1)

/-- The same value without zeros at the end of its fraction. -/
def normalized (d : Decimal) : Decimal :=
  if d.isZero then zero
  else
    let (m, s) := dropTrailingZeros d.mantissa d.scale
    (make? d.negative m s).getD d

/-- Moves the point `n` places to the right. -/
def shiftRight (d : Decimal) (n : Nat) : Except SyntaxFault Decimal :=
  if n ≤ d.scale then
    .ok { d with scale := d.scale - n, scale_le := by have := d.scale_le; omega }
  else if 28 < n then .error (.exponentTooLarge n)
  else
    match d.timesPowerOfTen? n with
    | none => .error .scientificOverflow
    | some product => .ok product.normalized

/-- Reads an exponent without a minus sign. -/
def readExponent (text : List Char) : Except SyntaxFault Nat :=
  match readWord32 (String.ofList text) with
  | .ok n => .ok n
  | .error _ => .error .malformedExponent

/-- Reads a scientific form, given the parts before and after its first `e`. -/
def ofScientific (mantissa exponent : List Char) : Except SyntaxFault Decimal := do
  let d ← ofPositional mantissa
  match exponent with
  | '-' :: digits =>
    let n ← readExponent digits
    if n ≤ 28 then return d.shiftLeft n else throw (.exponentTooLarge n)
  | digits =>
    let n ← readExponent digits
    d.shiftRight n

/-! ## Reading -/

/-- Whether a character separates mantissa and exponent. -/
def isExponentMark (c : Char) : Bool := c = 'e' || c = 'E'

/-- Reads the characters of a decimal in either form. -/
def ofChars (text : List Char) : Except SyntaxFault Decimal :=
  match ofPositional text with
  | .ok d => .ok d
  | .error fault =>
    match text.span fun c => !isExponentMark c with
    | (mantissa, _ :: exponent) => ofScientific mantissa exponent
    | (_, []) => .error fault

/-- Reads a decimal in either form. -/
def ofText (text : String) : Except SyntaxFault Decimal := ofChars text.toList

end Custodian.Decimal
