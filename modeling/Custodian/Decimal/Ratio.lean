import Custodian.Decimal.Basic

/-!
# Shares of time

`ratio? n d` is the share `n / d` of two lengths of time, to eight digits after the point.
The quotient is developed in groups of up to nine digits for as long as ninety-six bits and
28 digits after the point allow, a last remainder being rounded half to even; trailing
zeros that the groups brought along are taken off in groups of eight, four, two and one;
and what is still longer than eight digits after the point is rounded there, a half going
away from zero. The scale of a share shows how it was found: one half is `0.50`, one eighth
is `0.125`.
-/

namespace Custodian.Decimal

-- Powers are those of the core library, whatever else is in scope; for that a numeral as an
-- exponent has its type.
attribute [local instance(1100)] instPowNat

/-- Digits kept after the point of a share. -/
def ratioScale : Nat := 8

/-! ## Developing a quotient -/

/-- The largest group of digits, at most nine and at most `room`, by which `q` can grow and
stay below `2 ^ 96`. -/
def widestGroup? (q room : Nat) : Option Nat :=
  (List.range' 1 (min 9 room)).reverse.find? fun x => decide (q * 10 ^ x < 2 ^ (96 : Nat))

theorem widestGroup?_bounds {q room x : Nat} (h : widestGroup? q room = some x) :
    0 < x ∧ x ≤ room := by
  have := List.mem_of_find?_eq_some h
  simp only [List.mem_reverse, List.mem_range'_1] at this
  omega

/-- Develops `(q + r / d)` group by group, `room` more digits being allowed after the
point. Gives the integer reached and the number of digits added. -/
def develop (d : Nat) (room q r : Nat) : Nat × Nat :=
  if r = 0 then (q, 0)
  else
    match h : widestGroup? q room with
    | none => (if d < 2 * r ∨ (2 * r = d ∧ q % 2 = 1) then q + 1 else q, 0)
    | some x =>
      let (digits, places) :=
        develop d (room - x) (q * 10 ^ x + r * 10 ^ x / d) (r * 10 ^ x % d)
      (digits, places + x)
  termination_by room
  decreasing_by
    have := widestGroup?_bounds h
    omega

/-! ## Taking off trailing zeros -/

/-- Takes groups of eight trailing zeros off `q / 10 ^ s`, as long as the low 32 bits of the
integer are clear. -/
def stripEights (q s : Nat) : Nat × Nat :=
  if h : 8 ≤ s ∧ q % 2 ^ (32 : Nat) = 0 ∧ q % 100000000 = 0 then
    stripEights (q / 100000000) (s - 8)
  else (q, s)
  termination_by s
  decreasing_by omega

/-- Takes one group of `k` trailing zeros off `q / 10 ^ s`, if there is one. -/
def stripGroup (k : Nat) : Nat × Nat → Nat × Nat
  | (q, s) => if k ≤ s ∧ q % 2 ^ k = 0 ∧ q % 10 ^ k = 0 then (q / 10 ^ k, s - k) else (q, s)

/-- Takes trailing zeros off in groups of eight, then one group each of four, two and one. -/
def stripZeros (q s : Nat) : Nat × Nat :=
  stripGroup 1 (stripGroup 2 (stripGroup 4 (stripEights q s)))

/-! ## The share -/

/-- Rounds `q / 10 ^ s` to at most `places` digits after the point, a half going up. -/
def roundPlaces (places : Nat) : Nat × Nat → Nat × Nat
  | (q, s) =>
    if places < s then ((2 * q + 10 ^ (s - places)) / (2 * 10 ^ (s - places)), places)
    else (q, s)

/-- The quotient `n / d` at the scale the development and the stripping leave it. -/
def quotient (n d : Nat) : Nat × Nat :=
  if n % d = 0 then (n / d, 0)
  else
    let (digits, places) := develop d 28 (n / d) (n % d)
    stripZeros digits places

/-- The share `n / d` to eight digits after the point, or nothing where that does not fit. -/
def ratio? (n d : Nat) : Option Decimal :=
  let (digits, places) := roundPlaces ratioScale (quotient n d)
  make? false digits places

end Custodian.Decimal
