import Custodian.Database.Query
import Custodian.Proofs.Decimal.Text
import Custodian.Proofs.Ledger.CommitOrder

/-!
# Listing the ledger from its table

Over the rows of a ledger a request for a page is answered with that page of the ledger in
commit order (`Tables.listTransfers_ofRecorded`), so the table, the text of the amounts and
the order of insertion do not show.
-/

namespace Custodian

/-- The row of a recorded transfer reads as the transfer the ledger hands out. -/
theorem TransferRow.toTransfer_ofRecorded (r : RecordedTransfer) :
    (TransferRow.ofRecorded r).toTransfer = .ok r.transfer.stored := by
  unfold toTransfer ofRecorded
  show (readDecimal r.transfer.amount.toText >>= _) = _
  rw [readDecimal_toText]
  rfl

namespace Tables

variable {t : Tables} {ledger : Ledger} {account : String} {stop : Int64} {page : PageRequest}

theorem mapM_toTransfer (ledger : Ledger) :
    (ledger.map TransferRow.ofRecorded).mapM TransferRow.toTransfer =
      .ok (ledger.map fun r => r.transfer.stored) := by
  induction ledger with
  | nil => rfl
  | cons r ledger ih =>
    rw [List.map_cons, List.mapM_cons, TransferRow.toTransfer_ofRecorded, ih]
    rfl

/-- Whether a recorded transfer counts for an account before an instant. -/
def counts (account : String) (stop : Int64) (r : RecordedTransfer) : Bool :=
  r.transfer.stored.touches account && r.transfer.stored.countsBefore stop

theorem isTransferOf_ofRecorded (account : String) (stop : Int64) (r : RecordedTransfer) :
    isTransferOf account stop (.ofRecorded r) = counts account stop r := by
  unfold isTransferOf counts Transfer.countsBefore
  rw [Bool.and_assoc, Bool.and_comm (decide _)]
  rfl

/-- The rows of an account are the rows of its part of the ledger, in commit order. -/
theorem transfersOf_ofRecorded (ledger : Ledger) (account : String) (stop : Int64) :
    transfersOf (ledger.map TransferRow.ofRecorded) account stop =
      (ledger.byPlace.filter (counts account stop)).map TransferRow.ofRecorded := by
  have hcounts : isTransferOf account stop ∘ TransferRow.ofRecorded = counts account stop :=
    funext (isTransferOf_ofRecorded account stop)
  unfold transfersOf
  rw [List.filter_map, hcounts, Ledger.filter_byPlace]
  refine (List.map_mergeSort ?_).symm
  intro _ _ _ _
  rfl

theorem ofAccount_committed (ledger : Ledger) (account : String) (stop : Int64) :
    ledger.committed.ofAccount account stop =
      (ledger.byPlace.filter (counts account stop)).map fun r => r.transfer.stored := by
  unfold Ledger.committed Commits.ofAccount
  rw [List.filter_map]
  rfl

theorem map_slice {α β : Type} (f : α → β) (rows : List α) :
    page.slice (rows.map f) = (page.slice rows).map f := by
  unfold PageRequest.slice
  rw [List.map_take, List.map_drop]

/-- A page of an account's rows is that page of its transfers in commit order, counted
together with all others. -/
theorem listTransfers_ofRecorded (h : t.transfers = some (ledger.map TransferRow.ofRecorded))
    (hpage : page.check = .ok ()) :
    t.listTransfers account stop page =
      .ok ⟨page.slice (ledger.committed.ofAccount account stop),
        (ledger.committed.ofAccount account stop).length⟩ := by
  unfold listTransfers countTransfers transfersOn
  rw [hpage, h, ofAccount_committed, map_slice]
  show (do
    let items ← (page.slice (transfersOf (ledger.map TransferRow.ofRecorded) account stop)).mapM
      TransferRow.toTransfer
    return (⟨items, (transfersOf (ledger.map TransferRow.ofRecorded) account stop).length⟩ :
      Listing Transfer)) = _
  rw [transfersOf_ofRecorded, map_slice, mapM_toTransfer, List.length_map, List.length_map]
  rfl

end Tables

end Custodian
