/-!
# Integers in text

An integer is written as an optional sign and ASCII digits. Reading is within bounds: the
first fault met from the left is the answer, so digits that leave the bounds hide anything
wrong behind them. A minus sign is only a sign where the bounds admit negative numbers.
-/

namespace Custodian.Text

-- Powers are those of the core library, whatever else is in scope; for that a numeral as an
-- exponent has its type.
attribute [local instance(1100)] instPowNat

/-- Why a text is not an integer within the bounds asked for. -/
inductive IntegerFault where
  | empty
  | invalidDigit
  | tooLarge
  | tooSmall
  deriving DecidableEq, Repr

/-- The wording of a fault. -/
def IntegerFault.message : IntegerFault → String
  | empty => "cannot parse integer from empty string"
  | invalidDigit => "invalid digit found in string"
  | tooLarge => "number too large to fit in target type"
  | tooSmall => "number too small to fit in target type"

/-- The value of an ASCII digit. -/
def digit? (c : Char) : Option Nat :=
  if '0' ≤ c ∧ c ≤ '9' then some (c.toNat - '0'.toNat) else none

/-- Reads digits onto `acc`; going over `limit` is the fault `beyond`. -/
def readNatural (limit : Nat) (beyond : IntegerFault) (acc : Nat) :
    List Char → Except IntegerFault Nat
  | [] => .ok acc
  | c :: rest =>
    match digit? c with
    | none => .error .invalidDigit
    | some d =>
      if limit < 10 * acc + d then .error beyond
      else readNatural limit beyond (10 * acc + d) rest

/-- Reads an integer of the interval from `lo` to `hi`. -/
def readInteger (lo hi : Int) (text : String) : Except IntegerFault Int :=
  match text.toList with
  | [] => .error .empty
  | ['+'] => .error .invalidDigit
  | ['-'] => .error .invalidDigit
  | '+' :: digits => (readNatural hi.toNat .tooLarge 0 digits).map Int.ofNat
  | '-' :: digits =>
    if lo < 0 then (readNatural (-lo).toNat .tooSmall 0 digits).map fun n => -(n : Int)
    else .error .invalidDigit
  | digits => (readNatural hi.toNat .tooLarge 0 digits).map Int.ofNat

/-- Reads an integer of 32 bits without a sign bit. -/
def readWord32 (text : String) : Except IntegerFault Nat :=
  (readInteger 0 (2 ^ (32 : Nat) - 1) text).map Int.toNat

/-- Reads an integer of 64 bits without a sign bit. -/
def readWord64 (text : String) : Except IntegerFault Nat :=
  (readInteger 0 (2 ^ (64 : Nat) - 1) text).map Int.toNat

/-- Reads an integer of 64 bits with a sign. -/
def readInt64 (text : String) : Except IntegerFault Int64 :=
  (readInteger (-2 ^ (63 : Nat)) (2 ^ (63 : Nat) - 1) text).map Int64.ofInt

end Custodian.Text
