/-!
# The shortest digits of a double

A finite double is `m * 2 ^ q`. Among the decimals that a reader would round back to it,
the one with the fewest digits is written, and of those the nearest; where two are equally
near, the form of the text says which. The search is exact: the double, and the ends of the
interval of reals that round to it, are integers over a common denominator, and on each
decimal grid only the two neighbours of the double can be nearest.
-/

namespace Custodian.Double

-- Powers are those of the core library, whatever else is in scope; for that a numeral as an
-- exponent has its type.
attribute [local instance(1100)] instPowNat

/-! ## The parts of a double -/

/-- A double without its sign, as the integer `mantissa` times `2 ^ exponent`. The gap to the
next smaller double is half as wide as the gap above when `narrow` holds. -/
structure Parts where
  mantissa : Nat
  exponent : Int
  narrow : Bool
  deriving DecidableEq, Repr

/-- The sign bit and the parts of a finite double. -/
def parts (x : Float) : Bool × Parts :=
  let bits := x.toBits.toNat
  let field : Nat := bits / 2 ^ (52 : Nat) % 2 ^ (11 : Nat)
  let fraction := bits % 2 ^ (52 : Nat)
  let magnitude : Parts :=
    if field = 0 then ⟨fraction, -1074, false⟩
    else ⟨2 ^ (52 : Nat) + fraction, (field : Int) - 1075, decide (fraction = 0 ∧ 1 < field)⟩
  (decide (2 ^ (63 : Nat) ≤ bits), magnitude)

/-! ## Decimal grids -/

/-- A value and the ends of the interval that rounds to it, over one denominator. The ends
belong to the interval when `closed` holds. -/
structure Interval where
  value : Nat
  low : Nat
  high : Nat
  denominator : Nat
  closed : Bool
  deriving DecidableEq, Repr

/-- The interval of reals that round to a double; ends belong to it iff its mantissa is
even. Everything is counted in quarters of the last binary place. -/
def Parts.interval (p : Parts) : Interval :=
  let q := p.exponent - 2
  let up := 2 ^ q.toNat
  { value := 4 * p.mantissa * up
    low := (4 * p.mantissa - if p.narrow then 1 else 2) * up
    high := (4 * p.mantissa + 2) * up
    denominator := 2 ^ (-q).toNat
    closed := p.mantissa % 2 == 0 }

/-- The exponent `k` of the leading digit: the value lies in `[10 ^ k, 10 ^ (k + 1))`. -/
def Interval.leadingExponent (i : Interval) : Int :=
  if i.denominator ≤ i.value then
    ((Nat.toDigits 10 (i.value / i.denominator)).length : Int) - 1
  else
    let inverse := (i.denominator + i.value - 1) / i.value
    Int.negOfNat (Nat.toDigits 10 (inverse - 1)).length

/-- Which of two equally near neighbours on a grid is taken: the one with an even number of
steps, or the one away from zero. -/
inductive Tie where
  | toEven
  | up
  deriving DecidableEq, Repr

/-- Whether a tie goes to the neighbour below, which is `below` steps from zero. -/
def Tie.goesBelow (tie : Tie) (below : Nat) : Bool :=
  match tie with
  | toEven => below % 2 == 0
  | up => false

/-- The multiple of `10 ^ e` nearest to the value among its two neighbours that lie in the
interval, as a number of steps. -/
def Interval.nearest? (i : Interval) (tie : Tie) (e : Int) : Option Nat :=
  let scale := 10 ^ (-e).toNat
  let step := i.denominator * 10 ^ e.toNat
  let value := i.value * scale
  let low := i.low * scale
  let high := i.high * scale
  let below := value / step
  let above := below + 1
  let belowIn := if i.closed then low ≤ below * step else low < below * step
  let aboveIn := if i.closed then above * step ≤ high else above * step < high
  let r := value % step
  if belowIn then
    if aboveIn then
      if 2 * r < step ∨ (2 * r = step ∧ tie.goesBelow below) then some below else some above
    else some below
  else if aboveIn then some above
  else none

/-! ## The search -/

/-- Digits and exponent of a decimal: `digits * 10 ^ exponent`. -/
structure Digits where
  digits : Nat
  exponent : Int
  deriving DecidableEq, Repr

/-- The decimal of `count` digits, or one more, nearest to the value within the interval. -/
def Interval.withDigits? (i : Interval) (tie : Tie) (count : Nat) : Option Digits :=
  let e := i.leadingExponent + 1 - count
  (i.nearest? tie e).map fun n => ⟨n, e⟩

/-- The same decimal without zeros at the end of its digits. -/
def Digits.stripped (d : Digits) : Digits :=
  if d.digits = 0 then ⟨0, 0⟩ else strip d.digits d.exponent
where
  /-- Takes off trailing zeros one by one. -/
  strip (n : Nat) (e : Int) : Digits :=
    if h : n ≠ 0 ∧ n % 10 = 0 then strip (n / 10) (e + 1) else ⟨n, e⟩
  termination_by n
  decreasing_by omega

/-- The shortest decimal that rounds to the double. Seventeen digits always suffice. -/
def Parts.shortest (p : Parts) (tie : Tie) : Digits :=
  if p.mantissa = 0 then ⟨0, 0⟩
  else
    match (List.range' 1 17).findSome? (p.interval.withDigits? tie) with
    | some d => d.stripped
    | none => ⟨0, 0⟩

end Custodian.Double
