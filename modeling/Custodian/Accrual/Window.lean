import Custodian.Error
import Custodian.Time.Millis

/-!
# Report windows

A report covers the time from one instant up to a later one. Windows are made by
`Window.make`, which refuses empty and inverted ones and those longer than 64 bits can
count.
-/

namespace Custodian

-- Powers are those of the core library, whatever else is in scope; for that a numeral as an
-- exponent has its type.
attribute [local instance(1100)] instPowNat

/-- A pair of instants, the window between them if it has a length. -/
structure Window where
  start : Int64
  stop : Int64
  deriving DecidableEq, Repr

namespace Window

/-- The length, if it is positive and fits 64 bits. -/
def length? (w : Window) : Option Int64 :=
  (Time.minus? w.stop w.start).filter fun length => decide (0 < length)

/-- The length of the window, or the error that names its ends. -/
def length (w : Window) : Except Error Int64 :=
  match w.length? with
  | some length => .ok length
  | none => .error (.custody (.invalidWindow w.start w.stop))

/-- The window between two instants. -/
def make (start stop : Int64) : Except Error Window :=
  (Window.mk start stop).length.map fun _ => ⟨start, stop⟩

/-- Windows that `make` accepts. -/
def Valid (w : Window) : Prop :=
  w.start < w.stop ∧ w.stop.toInt - w.start.toInt < 2 ^ (63 : Nat)

instance (w : Window) : Decidable w.Valid := by unfold Valid; infer_instance

end Window

end Custodian
