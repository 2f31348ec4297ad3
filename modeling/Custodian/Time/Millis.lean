/-!
# Times in milliseconds

An instant is a signed 64-bit count of milliseconds since 1970, and so is a length of time.
Differences are either checked, giving nothing outside 64 bits, or saturating, stopping at
the bounds.
-/

namespace Custodian.Time

-- Powers are those of the core library, whatever else is in scope; for that a numeral as an
-- exponent has its type.
attribute [local instance(1100)] instPowNat

/-- The nearest 64-bit number to an integer. -/
def clamp (n : Int) : Int64 :=
  Int64.ofInt (max (-2 ^ (63 : Nat)) (min (2 ^ (63 : Nat) - 1) n))

/-- The difference `a - b`, unless it leaves 64 bits. -/
def minus? (a b : Int64) : Option Int64 :=
  let d := a.toInt - b.toInt
  if -2 ^ (63 : Nat) ≤ d ∧ d < 2 ^ (63 : Nat) then some (Int64.ofInt d) else none

/-- The difference `a - b`, stopping at the bounds. -/
def minusClamped (a b : Int64) : Int64 := clamp (a.toInt - b.toInt)

/-- The product `a * b`, stopping at the bounds. -/
def timesClamped (a b : Int64) : Int64 := clamp (a.toInt * b.toInt)

theorem minus?_eq_some_iff {a b d : Int64} :
    minus? a b = some d ↔ d.toInt = a.toInt - b.toInt := by
  have hl := d.le_toInt
  have hu := d.toInt_lt
  simp only [minus?]
  constructor
  · intro h
    split at h
    · rename_i hr
      cases h
      exact Int64.toInt_ofInt_of_le hr.1 hr.2
    · cases h
  · intro h
    rw [if_pos (by omega)]
    simp [← h]

end Custodian.Time
