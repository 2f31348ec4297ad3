import Custodian.Billing.Memo
import Custodian.Replay.Report

/-!
# Running reports

A report runs against stores, with a rate memo of its own that is dropped at its end. All
accounts of a report share the memo.
-/

namespace Custodian

/-- The state behind a running report. -/
structure Session (σ : Type) where
  memo : RateMemo
  stores : σ

namespace Session

variable {σ : Type}

/-- An operation of the stores alone. -/
def onStores {α : Type} (x : StateM σ α) : StateM (Session σ) α := fun s =>
  let (a, stores) := x.run s.stores
  (a, { s with stores := stores })

/-- Answers a question from the stores, rates through the memo. -/
def answer (stores : Stores σ) : (q : Question) → StateM (Session σ) q.Answer
  | .transfers account stop page => onStores (stores.transfers account stop page)
  | .accounts domain page => onStores (stores.accounts domain page)
  | .rate scope asset => fun s =>
    let ((result, memo), state) := (s.memo.resolve stores scope asset).run s.stores
    (result, ⟨memo, state⟩)
  | .snapshot account asset time => onStores (stores.snapshot account asset time)
  | .append snapshot => onStores (stores.append snapshot)
  | .writesWait => onStores stores.writesWait
  | .note notice => onStores (stores.note notice)

end Session

namespace Report

variable {σ : Type}

/-- Runs a report from an empty memo. -/
def runOn {α : Type} (stores : Stores σ) (report : Attempt α) : StateM σ (Except Error α) :=
  fun s =>
    let (result, session) := (report.run.run (Session.answer stores)).run ⟨.empty, s⟩
    (result, session.stores)

end Report

end Custodian
