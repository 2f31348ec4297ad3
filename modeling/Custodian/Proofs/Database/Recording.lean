import Custodian.Proofs.Database.FirstWins
import Custodian.Proofs.Database.Session
import Custodian.Proofs.Ledger.PlaceText

/-!
# Recording transfers

A batch adds to the ledger those of its transfers whose place and id are not taken, neither by
what was recorded before nor by what the batch itself added (`Ledger.added`). The table then
holds the ledger with these at its end (`Tables.recordTransfers_ofRecorded`). Ids being the texts of
places, these are the first transfers at their places (`Ledger.append_added_eq_keepFirst`).
-/

namespace Custodian

/-- A transfer clashes with a recorded one if it has its place or its id. -/
def RecordedTransfer.clashes (r r' : RecordedTransfer) : Bool :=
  r'.position == r.position || r'.position.text == r.position.text

/-- What a batch adds to a ledger. -/
def Ledger.added (ledger : Ledger) : List RecordedTransfer → Ledger
  | [] => []
  | r :: batch =>
    if ledger.any r.clashes then ledger.added batch else r :: added (ledger ++ [r]) batch

/-- No two places have one id, so transfers clash only if they have one place. -/
theorem RecordedTransfer.clashes_eq (r : RecordedTransfer) :
    r.clashes = fun r' => r'.position == r.position := by
  funext r'
  unfold clashes
  rw [Bool.eq_iff_iff, Bool.or_eq_true_iff, beq_iff_eq, beq_iff_eq]
  constructor
  · rintro (hplace | hid)
    · exact hplace
    · exact Position.text_injective hid
  · exact .inl

/-- The first transfer at each place is kept. -/
theorem Ledger.append_added_eq_keepFirst (ledger : Ledger) (batch : List RecordedTransfer) :
    ledger ++ ledger.added batch = keepFirst RecordedTransfer.position ledger batch := by
  induction batch generalizing ledger with
  | nil => exact List.append_nil ledger
  | cons r batch ih =>
    rw [added, keepFirst_cons, r.clashes_eq]
    split
    · exact ih ledger
    · rw [← ih (ledger ++ [r]), List.append_assoc, List.singleton_append]

namespace Tables

variable {t : Tables} {ledger : Ledger}

/-- The row of a transfer is refused if the transfer clashes with a recorded one. -/
theorem insertInto_of_clash {r : RecordedTransfer} (h : ledger.any r.clashes = true) :
    ∃ e, insertInto (ledger.map .ofRecorded) (.ofRecorded r) transferKeys = .error e := by
  unfold insertInto
  split
  · exact ⟨_, rfl⟩
  · rename_i hfree
    rw [List.find?_eq_none] at hfree
    obtain ⟨r', hr', hclash⟩ := List.any_eq_true.mp h
    unfold RecordedTransfer.clashes at hclash
    rcases Bool.or_eq_true_iff.mp hclash with hplace | hid
    · refine absurd ?_ (hfree _ List.mem_cons_self)
      exact List.any_eq_true.mpr ⟨_, List.mem_map_of_mem hr', hplace⟩
    · refine absurd ?_ (hfree _ (List.mem_cons_of_mem _ List.mem_cons_self))
      exact List.any_eq_true.mpr ⟨_, List.mem_map_of_mem hr', hid⟩

/-- The row of any other transfer comes last. -/
theorem insertInto_of_not_clash {r : RecordedTransfer} (h : ledger.any r.clashes = false) :
    insertInto (ledger.map .ofRecorded) (.ofRecorded r) transferKeys =
      .ok ((ledger ++ [r]).map .ofRecorded) := by
  rw [List.any_eq_false] at h
  unfold insertInto
  split
  · rename_i key e hfound
    have htaken : ((ledger.map TransferRow.ofRecorded).any fun row => key row (.ofRecorded r)) =
        true := by
      have := List.find?_some hfound
      exact this
    obtain ⟨row, hrow, hkey⟩ := List.any_eq_true.mp htaken
    obtain ⟨r', hr', rfl⟩ := List.mem_map.mp hrow
    refine absurd (Bool.or_eq_true_iff.mpr ?_) (h r' hr')
    rcases List.mem_cons.mp (List.mem_of_find?_eq_some hfound) with hplace | hid
    · cases hplace
      exact .inl hkey
    · cases List.mem_singleton.mp hid
      exact .inr hkey
  · rw [List.map_append]
    rfl

/-- Transfers are kept by place. -/
theorem keyedBy_transfers :
    KeyedBy transferKeys TransferRow.ofRecorded RecordedTransfer.position where
  taken ledger r htaken := by
    rw [← r.clashes_eq] at htaken
    exact insertInto_of_clash htaken
  free ledger r hfree := by
    rw [← r.clashes_eq] at hfree
    exact insertInto_of_not_clash hfree

/-- After a batch the table holds the first transfer at each place, and those that are new are
counted. -/
theorem recordTransfers_eq (htable : t.transfers = some (ledger.map .ofRecorded))
    (batch : List RecordedTransfer) :
    t.recordTransfers batch =
      .ok ((keepFirst RecordedTransfer.position ledger batch).length - ledger.length,
        { t with
          transfers :=
            some ((keepFirst RecordedTransfer.position ledger batch).map .ofRecorded) }) := by
  unfold recordTransfers
  rcases batch with _ | ⟨r, batch⟩
  · rw [keepFirst_nil, Nat.sub_self, ← htable]
    rfl
  · rw [htable]
    simp only [List.isEmpty_cons, Bool.false_eq_true, if_false, Tables.rows, bind, Except.bind,
      keyedBy_transfers.insertNew_eq]
    rfl

/-- After a batch the table holds the ledger with what the batch added. -/
theorem recordTransfers_ofRecorded (htable : t.transfers = some (ledger.map .ofRecorded))
    (batch : List RecordedTransfer) :
    ∃ n, t.recordTransfers batch =
      .ok (n, { t with transfers := some ((ledger ++ ledger.added batch).map .ofRecorded) }) := by
  rw [Ledger.append_added_eq_keepFirst]
  exact ⟨_, recordTransfers_eq htable batch⟩

end Tables

namespace Database

/-- Records a batch of transfers. -/
def record (batch : List RecordedTransfer) : StateM Database (Except Error Nat) :=
  write fun t => t.recordTransfers batch

/-- While the writer runs a batch is recorded, and no other table changes. -/
theorem tables_record {db : Database} {ledger : Ledger} (hwriting : db.writing = true)
    (htable : db.tables.transfers = some (ledger.map .ofRecorded))
    (batch : List RecordedTransfer) :
    ((record batch).run db).2.tables =
      { db.tables with
        transfers := some ((ledger ++ ledger.added batch).map .ofRecorded) } := by
  obtain ⟨n, hrecorded⟩ := Tables.recordTransfers_ofRecorded htable batch
  unfold record
  rw [write_of_ok hwriting hrecorded]

end Database

end Custodian
