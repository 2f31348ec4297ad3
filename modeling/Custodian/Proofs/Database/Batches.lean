import Custodian.Proofs.Database.Accounts
import Custodian.Proofs.Database.Recording

/-!
# Batches are recorded once

Accounts are recorded by full id and transfers by place, in batches of any size that come in any
order and may repeat what was recorded before (`Database.recordAll`). The tables then hold, of every
id and every place, the first that came with it (`Database.HoldsFirsts`). The two keys of the table
of transfers are one, since the text of a place names no other place.
-/

namespace Custodian

/-! ## Histories of batches -/

/-- What is recorded at once. -/
inductive Batch where
  | accounts (batch : List Account)
  | transfers (batch : List RecordedTransfer)

namespace Batch

/-- The accounts of a batch. -/
def accountsOf : Batch → List Account
  | accounts batch => batch
  | transfers _ => []

/-- The transfers of a batch. -/
def transfersOf : Batch → List RecordedTransfer
  | accounts _ => []
  | transfers batch => batch

/-- Records a batch through the writer. -/
def record : Batch → StateM Database (Except Error Nat)
  | accounts batch => Database.recordAccounts batch
  | transfers batch => Database.record batch

/-- No id and no place is in both batches. -/
def Apart (b b' : Batch) : Prop :=
  (∀ a ∈ b.accountsOf, ∀ a' ∈ b'.accountsOf, a.id ≠ a'.id) ∧
    ∀ r ∈ b.transfersOf, ∀ r' ∈ b'.transfersOf, r.position ≠ r'.position

/-- The accounts of a history, as they came. -/
def allAccounts (history : List Batch) : List Account := (history.map accountsOf).flatten

/-- The transfers of a history, as they came. -/
def allTransfers (history : List Batch) : List RecordedTransfer :=
  (history.map transfersOf).flatten

/-- The number of ids, or of places, that a batch has and a history has not. -/
def countNew (history : List Batch) : Batch → Nat
  | accounts batch =>
    ((batch.map Account.id).toFinset \ ((allAccounts history).map Account.id).toFinset).card
  | transfers batch =>
    ((batch.map RecordedTransfer.position).toFinset \
      ((allTransfers history).map RecordedTransfer.position).toFinset).card

/-- The first account with each id. -/
def firstAccounts (history : List Batch) : List Account :=
  firsts Account.id (allAccounts history)

/-- The first transfer at each place. -/
def firstTransfers (history : List Batch) : List RecordedTransfer :=
  firsts RecordedTransfer.position (allTransfers history)

variable {history history' : List Batch} {b : Batch}

theorem allAccounts_append (history history' : List Batch) :
    allAccounts (history ++ history') = allAccounts history ++ allAccounts history' := by
  unfold allAccounts
  rw [List.map_append, List.flatten_append]

theorem allTransfers_append (history history' : List Batch) :
    allTransfers (history ++ history') = allTransfers history ++ allTransfers history' := by
  unfold allTransfers
  rw [List.map_append, List.flatten_append]

theorem accountsOf_subset (h : b ∈ history) : b.accountsOf ⊆ allAccounts history := fun _ ha =>
  List.mem_flatten.mpr ⟨_, List.mem_map_of_mem h, ha⟩

theorem transfersOf_subset (h : b ∈ history) : b.transfersOf ⊆ allTransfers history := fun _ hr =>
  List.mem_flatten.mpr ⟨_, List.mem_map_of_mem h, hr⟩

/-- First accounts are put in order in one way, whatever the order of batches that have no id in
common. -/
theorem perm_firstAccounts (history : List Batch) {batches batches' : List Batch}
    (hperm : batches.Perm batches') (hapart : batches.Pairwise Apart) :
    (firstAccounts (history ++ batches)).Perm (firstAccounts (history ++ batches')) := by
  unfold firstAccounts
  rw [allAccounts_append, allAccounts_append, firsts_append, firsts_append]
  refine perm_keepFirst (nodup_firsts _) (hperm.map accountsOf) ?_
  exact List.pairwise_map.mpr (hapart.imp fun h => h.1)

theorem perm_firstTransfers (history : List Batch) {batches batches' : List Batch}
    (hperm : batches.Perm batches') (hapart : batches.Pairwise Apart) :
    (firstTransfers (history ++ batches)).Perm (firstTransfers (history ++ batches')) := by
  unfold firstTransfers
  rw [allTransfers_append, allTransfers_append, firsts_append, firsts_append]
  refine perm_keepFirst (nodup_firsts _) (hperm.map transfersOf) ?_
  exact List.pairwise_map.mpr (hapart.imp fun h => h.2)

end Batch

namespace Database

open Batch

/-- A new database after batches that came one after another. -/
def recordAll (history : List Batch) : Database :=
  history.foldl (fun db b => (b.record.run db).2) fresh

/-- A database with these accounts and transfers and nothing else. -/
def holding (recorded : List Account) (ledger : Ledger) : Database :=
  ofTables { Tables.fresh with
    accounts := some (recorded.map .ofAccount)
    transfers := some (ledger.map .ofRecorded) }

theorem run_record_holding (b : Batch) (recorded : List Account) (ledger : Ledger) :
    b.record.run (holding recorded ledger) =
      (.ok ((keepFirst Account.id recorded b.accountsOf).length - recorded.length +
          ((keepFirst RecordedTransfer.position ledger b.transfersOf).length - ledger.length)),
        holding (keepFirst Account.id recorded b.accountsOf)
          (keepFirst RecordedTransfer.position ledger b.transfersOf)) := by
  cases b with
  | accounts batch =>
    show (write fun t => t.recordAccounts batch).run (holding recorded ledger) = _
    rw [write_of_ok rfl (Tables.recordAccounts_eq rfl batch), transfersOf, keepFirst_nil,
      Nat.sub_self, Nat.add_zero]
    rfl
  | transfers batch =>
    show (write fun t => t.recordTransfers batch).run (holding recorded ledger) = _
    rw [write_of_ok rfl (Tables.recordTransfers_eq rfl batch), accountsOf, keepFirst_nil,
      Nat.sub_self, Nat.zero_add]
    rfl

/-- After any history the tables hold the first of each id and of each place. -/
theorem recordAll_eq_holding (history : List Batch) :
    recordAll history = holding (firstAccounts history) (firstTransfers history) := by
  have hrun : ∀ recorded ledger,
      history.foldl (fun db b => (b.record.run db).2) (holding recorded ledger) =
        holding (keepFirst Account.id recorded (allAccounts history))
          (keepFirst RecordedTransfer.position ledger (allTransfers history)) := by
    induction history with
    | nil => exact fun recorded ledger => rfl
    | cons b history ih =>
      intro recorded ledger
      rw [List.foldl_cons, run_record_holding, ih, ← keepFirst_append, ← keepFirst_append]
      rfl
  exact hrun [] []

/-- The next batch is answered with the number of its ids, or places, that did not come before. -/
theorem run_record_recordAll (history : List Batch) (b : Batch) :
    b.record.run (recordAll history) =
      (.ok (b.countNew history), recordAll (history ++ [b])) := by
  have hafter : (b.record.run (recordAll history)).2 = recordAll (history ++ [b]) := by
    unfold recordAll
    rw [List.foldl_append]
    rfl
  refine Prod.ext ?_ hafter
  rw [recordAll_eq_holding, run_record_holding]
  cases b with
  | accounts batch =>
    show Except.ok (_ - _ + (_ - _)) = _
    rw [transfersOf, keepFirst_nil, Nat.sub_self, Nat.add_zero]
    exact congrArg Except.ok (length_keepFirst_firsts (allAccounts history) batch)
  | transfers batch =>
    show Except.ok (_ - _ + (_ - _)) = _
    rw [accountsOf, keepFirst_nil, Nat.sub_self, Nat.zero_add]
    exact congrArg Except.ok (length_keepFirst_firsts (allTransfers history) batch)

/-- A batch that is repeated changes nothing. -/
theorem run_record_of_mem {history : List Batch} {b : Batch} (h : b ∈ history) :
    b.record.run (recordAll history) = (.ok 0, recordAll history) := by
  have haccounts : keepFirst Account.id (firstAccounts history) b.accountsOf =
      firstAccounts history := keepFirst_firsts_of_subset (accountsOf_subset h)
  have htransfers : keepFirst RecordedTransfer.position (firstTransfers history) b.transfersOf =
      firstTransfers history := keepFirst_firsts_of_subset (transfersOf_subset h)
  rw [recordAll_eq_holding, run_record_holding, haccounts, htransfers, Nat.sub_self, Nat.sub_self]

/-! ## What the tables hold -/

/-- The tables hold, of every id and of every place, one row of the first record that came with it.
They hold nothing else, and all else is as in a new database. -/
structure HoldsFirsts (db : Database) (history : List Batch) : Prop where
  accounts : ∃ rows, db.tables.accounts = some rows ∧
    ∀ id, (rows.filter fun r => r.id == id) =
      ((allAccounts history).find? fun a => a.id == id).toList.map .ofAccount
  transfers : ∃ rows, db.tables.transfers = some rows ∧
    ∀ p, (rows.filter fun r => r.position == p) =
      ((allTransfers history).find? fun r => r.position == p).toList.map .ofRecorded
  elsewhere : { db with tables := { db.tables with accounts := some [], transfers := some [] } } =
    fresh

theorem holdsFirsts_recordAll (history : List Batch) :
    (recordAll history).HoldsFirsts history := by
  rw [recordAll_eq_holding]
  refine ⟨⟨_, rfl, fun id => ?_⟩, ⟨_, rfl, fun p => ?_⟩, rfl⟩
  · rw [List.filter_map]
    exact congrArg (List.map AccountRow.ofAccount) (filter_firsts (allAccounts history) id)
  · rw [List.filter_map]
    exact congrArg (List.map TransferRow.ofRecorded) (filter_firsts (allTransfers history) p)

/-- The second database has all rows of the first one, unchanged, and perhaps further ones behind
them. -/
structure Extends (db db' : Database) : Prop where
  accounts : ∃ rows added, db.tables.accounts = some rows ∧
    db'.tables.accounts = some (rows ++ added)
  transfers : ∃ rows added, db.tables.transfers = some rows ∧
    db'.tables.transfers = some (rows ++ added)

/-- No row is ever changed or removed. -/
theorem extends_recordAll (history further : List Batch) :
    (recordAll history).Extends (recordAll (history ++ further)) := by
  have haccounts : firstAccounts history <+: firstAccounts (history ++ further) := by
    unfold firstAccounts
    rw [allAccounts_append, firsts_append]
    exact prefix_keepFirst _ _
  have htransfers : firstTransfers history <+: firstTransfers (history ++ further) := by
    unfold firstTransfers
    rw [allTransfers_append, firsts_append]
    exact prefix_keepFirst _ _
  obtain ⟨accounts, haccounts⟩ := haccounts
  obtain ⟨transfers, htransfers⟩ := htransfers
  rw [recordAll_eq_holding, recordAll_eq_holding, ← haccounts, ← htransfers]
  exact ⟨⟨_, _, rfl, congrArg some (List.map_append ..)⟩,
    ⟨_, _, rfl, congrArg some (List.map_append ..)⟩⟩

end Database

/-! ## The order of batches -/

/-- Accounts of distinct ids are listed in one way, whatever their order. -/
theorem Account.listed_congr {recorded recorded' : List Account} (h : recorded.Perm recorded')
    (hids : (recorded.map Account.id).Nodup) (domain : Option String) :
    listed recorded domain = listed recorded' domain := by
  have hids' : (recorded'.map Account.id).Nodup := (h.map Account.id).nodup_iff.mp hids
  refine listed_eq hids (pairwise_listed hids' domain) ?_
  exact (List.mergeSort_perm _ _).trans (h.symm.filter _)

/-- Transfers of distinct places are committed in one way, whatever their order. -/
theorem Ledger.committed_congr {ledger ledger' : Ledger} (h : ledger.Perm ledger')
    (hplaces : (ledger.map RecordedTransfer.position).Nodup) :
    ledger.committed = ledger'.committed := by
  have hsorted : ∀ l : Ledger, l.byPlace.Pairwise fun r r' => r.position.le r'.position = true :=
    fun l => List.pairwise_mergeSort
      (fun a b c => Position.le_trans a.position b.position c.position)
      (fun a b => Position.le_total a.position b.position) l
  have hperm : ledger.byPlace.Perm ledger'.byPlace :=
    (List.mergeSort_perm _ _).trans (h.trans (List.mergeSort_perm _ _).symm)
  have hbyPlace : ledger.byPlace = ledger'.byPlace := by
    -- no two transfers stand at one place, so nothing is left to the order of recording
    refine hperm.eq_of_pairwise (fun r r' hr hr' hle hge => ?_) (hsorted ledger) (hsorted ledger')
    refine List.inj_on_of_nodup_map hplaces (List.mem_mergeSort.mp hr) ?_
      (Position.le_antisymm hle hge)
    exact h.mem_iff.mpr (List.mem_mergeSort.mp hr')
  unfold committed
  rw [hbyPlace]

namespace Tables

variable {t t' : Tables}

theorem listAccounts_congr {recorded recorded' : List Account}
    (h : t.accounts = some (recorded.map .ofAccount))
    (h' : t'.accounts = some (recorded'.map .ofAccount)) (hperm : recorded.Perm recorded')
    (hids : (recorded.map Account.id).Nodup) : t.listAccounts = t'.listAccounts := by
  funext domain page
  rcases hpage : page.check with e | ⟨⟩
  · unfold listAccounts
    rw [hpage]
    rfl
  · rw [listAccounts_ofAccount h hpage, listAccounts_ofAccount h' hpage,
      Account.listed_congr hperm hids]

theorem listTransfers_congr {ledger ledger' : Ledger}
    (h : t.transfers = some (ledger.map .ofRecorded))
    (h' : t'.transfers = some (ledger'.map .ofRecorded)) (hperm : ledger.Perm ledger')
    (hplaces : (ledger.map RecordedTransfer.position).Nodup) :
    t.listTransfers = t'.listTransfers := by
  funext account stop page
  rcases hpage : page.check with e | ⟨⟩
  · unfold listTransfers
    rw [hpage]
    rfl
  · rw [listTransfers_ofRecorded h hpage, listTransfers_ofRecorded h' hpage,
      Ledger.committed_congr hperm hplaces]

end Tables

namespace Database

open Batch

/-- The tables have the same rows, in whatever order, and are listed the same. -/
structure SameRows (db db' : Database) : Prop where
  accounts : ∃ rows rows', db.tables.accounts = some rows ∧ db'.tables.accounts = some rows' ∧
    rows.Perm rows'
  transfers : ∃ rows rows', db.tables.transfers = some rows ∧ db'.tables.transfers = some rows' ∧
    rows.Perm rows'
  listAccounts : db.tables.listAccounts = db'.tables.listAccounts
  listTransfers : db.tables.listTransfers = db'.tables.listTransfers

theorem sameRows_recordAll (history : List Batch) {batches batches' : List Batch}
    (hperm : batches.Perm batches') (hapart : batches.Pairwise Apart) :
    (recordAll (history ++ batches)).SameRows (recordAll (history ++ batches')) := by
  have haccounts := perm_firstAccounts history hperm hapart
  have htransfers := perm_firstTransfers history hperm hapart
  rw [recordAll_eq_holding, recordAll_eq_holding]
  exact ⟨⟨_, _, rfl, rfl, haccounts.map _⟩, ⟨_, _, rfl, rfl, htransfers.map _⟩,
    Tables.listAccounts_congr rfl rfl haccounts (nodup_firsts _),
    Tables.listTransfers_congr rfl rfl htransfers (nodup_firsts _)⟩

/-- Recording is idempotent and the first wins. After any history of batches the tables hold of
every id and of every place the first that came with it, and whatever follows, these rows stay. The
next batch is answered with the number of ids, or places, that it adds; one of the history is
answered with none and changes nothing. Batches that have no id and no place in common leave the
same rows in any order. The text of a place is the text of no other one. -/
theorem first_recorded_wins (history : List Batch) :
    (recordAll history).HoldsFirsts history ∧
    (∀ further, (recordAll history).Extends (recordAll (history ++ further))) ∧
    (∀ b : Batch, b.record.run (recordAll history) =
      (.ok (b.countNew history), recordAll (history ++ [b]))) ∧
    (∀ b ∈ history, b.record.run (recordAll history) = (.ok 0, recordAll history)) ∧
    (∀ batches batches' : List Batch, batches.Perm batches' → batches.Pairwise Apart →
      (recordAll (history ++ batches)).SameRows (recordAll (history ++ batches'))) ∧
    ∀ p q : Position, p.text = q.text → p = q :=
  ⟨holdsFirsts_recordAll history, extends_recordAll history, run_record_recordAll history,
    fun _ h => run_record_of_mem h, fun _ _ => sameRows_recordAll history,
    fun _ _ => Position.text_injective⟩

/-- Of two transfers at one place the first is kept; the second one is passed over again in a later
batch, where a third one is new; and an account may be recorded before that batch or after it. -/
theorem first_of_conflicting_transfers_wins :
    let pay (index : Int) (payee : String) : RecordedTransfer :=
      ⟨⟨1, 0, index⟩, ⟨"treasury@bank", payee, "usd#bank", .one, 10, false⟩⟩
    let conflict : Batch := .transfers [pay 0 "alice@bank", pay 0 "bob@bank"]
    let next : Batch := .transfers [pay 0 "bob@bank", pay (-1) "bob@bank"]
    let enrol : Batch := .accounts [⟨"bob", "bank"⟩, ⟨"bob", "bank"⟩]
    (∃ rows, (recordAll [conflict]).tables.transfers = some rows ∧
      (rows.filter fun r => r.position == ⟨1, 0, 0⟩) = [.ofRecorded (pay 0 "alice@bank")]) ∧
    ((next.record.run (recordAll [conflict])).1 = .ok 1) ∧
    conflict.record.run (recordAll [conflict]) = (.ok 0, recordAll [conflict]) ∧
    (recordAll [conflict, next, enrol]).SameRows (recordAll [conflict, enrol, next]) := by
  intro pay conflict next enrol
  obtain ⟨hfirsts, -, hnext, hrepeat, horder, -⟩ := first_recorded_wins [conflict]
  refine ⟨?_, ?_, hrepeat conflict List.mem_cons_self, ?_⟩
  · obtain ⟨rows, hrows, hfirst⟩ := hfirsts.transfers
    exact ⟨rows, hrows, hfirst ⟨1, 0, 0⟩⟩
  · rw [hnext next]
    rfl
  · refine horder [next, enrol] [enrol, next] (.swap _ _ _) ?_
    refine List.pairwise_pair.mpr ⟨?_, ?_⟩
    · exact fun a ha => absurd ha List.not_mem_nil
    · exact fun r _ r' hr' => absurd hr' List.not_mem_nil

end Database

end Custodian
