import Custodian.Ledger.Account
import Custodian.Ledger.Page
import Custodian.Ledger.Transfer
import Custodian.Replay.Notice
import Custodian.Snapshot.Basic

/-!
# Dialogues with the stores

A replay never holds the stores. It is a *dialogue*: either finished with a value, or a
question together with what to do with each possible answer. Whoever runs it supplies the
answers one by one, so several replays can be interleaved question by question, stores can
change between two questions, and any question can be answered with an error.
-/

namespace Custodian

/-- What a replay asks of the stores. -/
inductive Question where
  /-- A page of the transfers that touch an account, counted and from before an instant. -/
  | transfers (account : String) (stop : Int64) (page : PageRequest)
  /-- A page of the accounts of a domain, or of all accounts. -/
  | accounts (domain : Option String) (page : PageRequest)
  /-- The fee fraction of an asset in a billing scope. -/
  | rate (scope asset : String)
  /-- The newest snapshot of an asset of an account at or before an instant. -/
  | snapshot (account asset : String) (time : Int64)
  /-- The recording of a snapshot. -/
  | append (snapshot : Snapshot)
  /-- Whether recordings wait in a queue, so that other work can go on meanwhile. -/
  | writesWait
  /-- The recording of a notice. -/
  | note (notice : Notice)
  deriving DecidableEq, Repr

/-- The answers to a question. -/
abbrev Question.Answer : Question → Type
  | .transfers _ _ _ => Except Error (Listing Transfer)
  | .accounts _ _ => Except Error (Listing Account)
  | .rate _ _ => Except Error Decimal
  | .snapshot _ _ _ => Except Error (Option Snapshot)
  | .append _ => Except Error Unit
  | .writesWait => Bool
  | .note _ => Unit

/-- A computation that asks questions. -/
inductive Dialogue (α : Type) where
  | done (value : α)
  | ask (question : Question) (next : question.Answer → Dialogue α)

namespace Dialogue

variable {α β : Type}

/-- Goes on with `f` once the dialogue is finished. -/
def bind (d : Dialogue α) (f : α → Dialogue β) : Dialogue β :=
  match d with
  | done value => f value
  | ask question next => ask question fun answer => (next answer).bind f

instance : Monad Dialogue where
  pure := done
  bind := bind

/-- The dialogue of a single question. -/
def question (q : Question) : Dialogue q.Answer := ask q done

/-- Runs a dialogue against whatever answers its questions. -/
def run {m : Type → Type} [Monad m] (answer : (q : Question) → m q.Answer) :
    Dialogue α → m α
  | done value => pure value
  | ask q next => do
    let a ← answer q
    (next a).run answer

end Dialogue

/-- A dialogue that may fail. -/
abbrev Attempt := ExceptT Error Dialogue

namespace Attempt

/-- Asks a question. A failure among the answers is left to the caller. -/
def question (q : Question) : Attempt q.Answer := ExceptT.lift (Dialogue.question q)

/-- A result that needs no store. -/
def ofExcept {α : Type} (result : Except Error α) : Attempt α := ExceptT.mk (.done result)

/-- Leaves a notice. -/
def note (notice : Notice) : Attempt Unit := question (.note notice)

end Attempt

end Custodian
