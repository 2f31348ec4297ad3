import Custodian.Replay.Dialogue

/-!
# Dialogues side by side

Several dialogues may be open at once. The first of them goes on until it stands before a
write. Then those open behind it go on too, each up to a write of its own, and all these
writes are made in the order of the dialogues. Results are taken in that order as well: a
dialogue that is finished before its turn is kept until then, and each result taken lets one
more dialogue open. The first failure in order ends them all. What was written behind it stays
written, and nothing more is asked.
-/

namespace Custodian

/-- Whether a question is a write, at which a dialogue lets others go on. -/
def Question.isWrite : Question → Bool
  | .append _ => true
  | _ => false

namespace Dialogue

variable {α : Type}

/-- Goes on up to the next write, or to the end. -/
def toWrite (d : Dialogue α) : Dialogue (Dialogue α) :=
  match d with
  | done value => done (done value)
  | ask q next => if q.isWrite then done (ask q next) else ask q fun answer => (next answer).toWrite

/-- Makes the write that a dialogue stands before, if it stands before one. -/
def pastWrite (d : Dialogue α) : Dialogue (Dialogue α) :=
  match d with
  | done value => done (done value)
  | ask q next => if q.isWrite then ask q fun answer => done (next answer) else done (ask q next)

/-- Moves the first `n` of several dialogues, one after the other. -/
def moveFirst (move : Dialogue α → Dialogue (Dialogue α)) :
    Nat → List (Dialogue α) → Dialogue (List (Dialogue α))
  | n + 1, d :: others => do
    let moved ← move d
    let others ← moveFirst move n others
    return moved :: others
  | _, others => return others

/-- Follows a dialogue to its end. Whenever it stands before a write, the first `behind` of
the others move up to a write of their own, and then all of them make theirs. -/
def lead (behind : Nat) (d : Dialogue α) (others : List (Dialogue α)) :
    Dialogue (α × List (Dialogue α)) :=
  match d with
  | done value => done (value, others)
  | ask q next =>
    if q.isWrite then do
      let others ← moveFirst toWrite behind others
      ask q fun answer => do
        let others ← moveFirst pastWrite behind others
        (next answer).lead behind others
    else ask q fun answer => (next answer).lead behind others

theorem moveFirst_zero (move : Dialogue α → Dialogue (Dialogue α)) (others : List (Dialogue α)) :
    moveFirst move 0 others = done others := by
  cases others <;> rfl

/-- With nobody behind it a dialogue goes on as if it were alone. -/
theorem lead_zero (d : Dialogue α) (others : List (Dialogue α)) :
    d.lead 0 others = d.bind fun value => done (value, others) := by
  induction d with
  | done value => rfl
  | ask q next ih =>
    simp only [lead, Dialogue.bind, moveFirst_zero]
    split
    · exact congrArg (ask q) (funext ih)
    · exact congrArg (ask q) (funext ih)

end Dialogue

namespace Attempt

variable {α : Type}

/-- Takes the next `count` results in order, `behind` dialogues being open behind each. -/
def take (behind : Nat) : Nat → List (Dialogue (Except Error α)) → Attempt (List α)
  | count + 1, first :: others => do
    let (result, others) ← ExceptT.lift (first.lead behind others)
    let value ← ofExcept result
    return value :: (← take behind count others)
  | _, _ => return []

/-- The results of several attempts, at most `width` of them open at once. -/
def sideBySide (width : Nat) (attempts : List (Attempt α)) : Attempt (List α) :=
  take (width - 1) attempts.length (attempts.map ExceptT.run)

end Attempt

end Custodian
