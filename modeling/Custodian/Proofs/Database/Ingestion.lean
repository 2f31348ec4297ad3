import Custodian.Proofs.Database.Recording
import Custodian.Proofs.Ledger.Paging
import Mathlib.Data.List.Nodup

/-!
# Transfers are recorded while pages are read

A page is read in two queries: its rows are counted in all, and then those on the page are read
(`Tables.listTransfersAcross`). In between, and between two pages, batches of transfers may be
recorded, whose new rows come last in commit order (`Tables.Ingested`). Then the rows of an
account in commit order grow at their end only (`Tables.GrewLast.matching`), so whatever stands on
a full page stays there.
-/

namespace Custodian

namespace Tables

variable {t t' t'' : Tables} {account : String} {stop : Int64} {page : PageRequest}

/-! ## The rows of an account -/

/-- All rows of transfers. -/
def transferRows (t : Tables) : List TransferRow := t.transfers.getD []

/-- The rows of the transfers of an account that count before an instant, in commit order. -/
def matching (t : Tables) (account : String) (stop : Int64) : List TransferRow :=
  transfersOf t.transferRows account stop

/-- Rows that are in commit order stay in it. -/
theorem transfersOf_of_pairwise {rows : List TransferRow}
    (h : rows.Pairwise fun r r' => r.position.le r'.position) (account : String) (stop : Int64) :
    transfersOf rows account stop = rows.filter (isTransferOf account stop) :=
  List.mergeSort_of_pairwise (h.filter _)

/-- No two transfers have one place, which is a key of the table. -/
def DistinctPlaces (t : Tables) : Prop := (t.transferRows.map TransferRow.position).Nodup

theorem DistinctPlaces.matching (h : t.DistinctPlaces) (account : String) (stop : Int64) :
    ((t.matching account stop).map TransferRow.position).Nodup := by
  have hperm := (List.mergeSort_perm (t.transferRows.filter (isTransferOf account stop))
    fun a b => a.position.le b.position).map TransferRow.position
  refine hperm.nodup_iff.mpr ?_
  exact List.Nodup.sublist (List.filter_sublist.map _) h

/-- A page whose rows are counted in some tables and read from others. -/
def listTransfersAcross (counted read : Tables) (account : String) (stop : Int64)
    (page : PageRequest) : Except Error (Listing Transfer) := do
  page.check
  let total ← counted.countTransfers account stop
  let items ← read.transfersOn account stop page
  return ⟨items, total⟩

/-- Nothing is recorded in between. -/
theorem listTransfersAcross_self (t : Tables) :
    t.listTransfersAcross t account stop page = t.listTransfers account stop page := rfl

/-- Where both tables are there only a row on the page can fail to be read. -/
theorem listTransfersAcross_of_rows {rows rows' : List TransferRow} (h : t.transfers = some rows)
    (h' : t'.transfers = some rows') (hpage : page.check = .ok ()) :
    t.listTransfersAcross t' account stop page =
      ((page.slice (t'.matching account stop)).mapM TransferRow.toTransfer).map fun items =>
        ⟨items, (t.matching account stop).length⟩ := by
  unfold listTransfersAcross countTransfers transfersOn matching transferRows
  rw [hpage, h, h']
  rfl

/-- A page that is read has its rows from the second tables, and their number from the first. -/
theorem listTransfersAcross_eq_ok {listing : Listing Transfer}
    (h : t.listTransfersAcross t' account stop page = .ok listing) :
    listing.total = (t.matching account stop).length ∧
      (page.slice (t'.matching account stop)).mapM TransferRow.toTransfer = .ok listing.items := by
  obtain ⟨_, -, h⟩ := except_bind_eq_ok_iff.mp h
  obtain ⟨total, htotal, h⟩ := except_bind_eq_ok_iff.mp h
  obtain ⟨items, hitems, h⟩ := except_bind_eq_ok_iff.mp h
  obtain ⟨rows, hrows, htotal⟩ := except_bind_eq_ok_iff.mp htotal
  obtain ⟨rows', hrows', hitems⟩ := except_bind_eq_ok_iff.mp hitems
  cases h
  cases htotal
  unfold matching transferRows
  rw [rows_eq_ok hrows, rows_eq_ok hrows']
  exact ⟨rfl, hitems⟩

/-! ## Growth at the end -/

/-- Further transfers have been recorded, which all come last in commit order. -/
def GrewLast (t t' : Tables) : Prop :=
  ∃ added : List TransferRow, t'.transfers = t.transfers.map (· ++ added) ∧
    ∀ r ∈ t.transferRows, ∀ r' ∈ added, r.position.le r'.position = true

theorem grewLast_of_eq (h : t'.transfers = t.transfers) : t.GrewLast t' := by
  refine ⟨[], ?_, by simp⟩
  rw [h]
  cases t.transfers <;> simp

namespace GrewLast

/-- Where there is no table there are no rows, before and after. -/
theorem exists_transferRows (h : t.GrewLast t') :
    ∃ added, t'.transferRows = t.transferRows ++ added ∧
      ∀ r ∈ t.transferRows, ∀ r' ∈ added, r.position.le r'.position = true := by
  obtain ⟨added, htable, hlast⟩ := h
  unfold transferRows at hlast ⊢
  rw [htable]
  rcases htransfers : t.transfers with _ | rows
  · exact ⟨[], rfl, by simp⟩
  · rw [htransfers] at hlast
    exact ⟨added, rfl, hlast⟩

theorem trans (h : t.GrewLast t') (h' : t'.GrewLast t'') : t.GrewLast t'' := by
  obtain ⟨added, htable, hlast⟩ := h
  obtain ⟨added', htable', hlast'⟩ := h'
  rw [htable] at htable'
  unfold transferRows at hlast hlast'
  rw [htable] at hlast'
  refine ⟨added ++ added', ?_, fun r hr r' hr' => ?_⟩
  · rw [htable']
    cases t.transfers <;> simp
  · unfold transferRows at hr
    rcases List.mem_append.mp hr' with hr' | hr'
    · exact hlast r hr r' hr'
    · refine hlast' r ?_ r' hr'
      rcases htransfers : t.transfers with _ | rows
      · rw [htransfers] at hr
        cases hr
      · rw [htransfers] at hr
        exact List.mem_append_left _ hr

/-- The rows of an account stay where they are, and new ones come behind them. -/
theorem matching (h : t.GrewLast t') (account : String) (stop : Int64) :
    t.matching account stop <+: t'.matching account stop := by
  obtain ⟨added, hrows, hlast⟩ := h.exists_transferRows
  refine ⟨transfersOf added account stop, ?_⟩
  unfold Tables.matching transfersOf
  rw [hrows, List.filter_append]
  refine (mergeSort_append (fun a b c => Position.le_trans a.position b.position c.position)
    (fun a b => Position.le_total a.position b.position) fun r hr r' hr' => ?_).symm
  exact hlast r (List.mem_filter.mp hr).1 r' (List.mem_filter.mp hr').1

end GrewLast

/-! ## Batches -/

/-- New rows come at the end of the table, and none has a place that is taken. -/
theorem insertNew_transferKeys (rows batch : List TransferRow) :
    ∃ added, (insertNew transferKeys rows batch).2 = rows ++ added ∧
      ((rows.map TransferRow.position).Nodup →
        ((rows ++ added).map TransferRow.position).Nodup) := by
  induction batch generalizing rows with
  | nil => exact ⟨[], by simp [insertNew], by simp⟩
  | cons row batch ih =>
    rw [insertNew]
    rcases hinsert : insertInto rows row transferKeys with e | rows'
    · exact ih rows
    · obtain ⟨rfl, hfree⟩ := insertInto_eq_ok hinsert
      obtain ⟨added, hadded, hnodup⟩ := ih (rows ++ [row])
      refine ⟨row :: added, ?_, fun hrows => ?_⟩
      · simpa using hadded
      · rw [List.append_assoc, List.singleton_append] at hnodup
        refine hnodup ?_
        rw [List.map_append, List.map_singleton]
        refine List.nodup_append.mpr ⟨hrows, List.nodup_singleton _, ?_⟩
        intro p hp q hq
        obtain ⟨r, hr, rfl⟩ := List.mem_map.mp hp
        rw [List.mem_singleton.mp hq]
        exact beq_eq_false_iff_ne.mp (hfree _ List.mem_cons_self r hr)

/-- What may happen to the tables between two queries: a batch of transfers is recorded whose new
rows follow all rows that were there, or something else that leaves the transfers as they are. -/
inductive Ingests : Tables → Tables → Prop
  | batch {t t' : Tables} (batch : List RecordedTransfer) {n : Nat}
      (recorded : t.recordTransfers batch = .ok (n, t'))
      (last : ∀ r' ∈ t'.transferRows, r' ∉ t.transferRows →
        ∀ r ∈ t.transferRows, r.position.le r'.position = true) : Ingests t t'
  | elsewhere {t t' : Tables} (same : t'.transfers = t.transfers) : Ingests t t'

/-- Any number of times. -/
def Ingested : Tables → Tables → Prop := Relation.ReflTransGen Ingests

theorem Ingests.grewLast (h : Ingests t t') (hplaces : t.DistinctPlaces) :
    t.GrewLast t' ∧ t'.DistinctPlaces := by
  cases h with
  | elsewhere same =>
    refine ⟨grewLast_of_eq same, ?_⟩
    unfold DistinctPlaces transferRows
    rw [same]
    exact hplaces
  | batch batch recorded last =>
    unfold recordTransfers at recorded
    split at recorded
    · cases recorded
      exact ⟨grewLast_of_eq rfl, hplaces⟩
    · obtain ⟨rows, hrows, recorded⟩ := except_bind_eq_ok_iff.mp recorded
      have htable := rows_eq_ok hrows
      obtain ⟨added, hadded, hnodup⟩ := insertNew_transferKeys rows (batch.map .ofRecorded)
      cases recorded
      have hplaced : (rows.map TransferRow.position).Nodup := by
        unfold DistinctPlaces transferRows at hplaces
        rw [htable] at hplaces
        exact hplaces
      have hnew : ((rows ++ added).map TransferRow.position).Nodup := hnodup hplaced
      refine ⟨⟨added, ?_, ?_⟩, ?_⟩
      · rw [htable, Option.map_some, ← hadded]
      · intro r hr r' hr'
        refine last r' ?_ ?_ r hr
        · show r' ∈ (insertNew transferKeys rows (batch.map .ofRecorded)).2
          rw [hadded]
          exact List.mem_append_right _ hr'
        · unfold transferRows
          rw [htable]
          intro hold
          rw [List.map_append] at hnew
          exact (List.nodup_append.mp hnew).2.2 _ (List.mem_map_of_mem hold) _
            (List.mem_map_of_mem hr') rfl
      · show ((insertNew transferKeys rows (batch.map .ofRecorded)).2.map _).Nodup
        rw [hadded]
        exact hnew

theorem Ingested.grewLast (h : Ingested t t') (hplaces : t.DistinctPlaces) :
    t.GrewLast t' ∧ t'.DistinctPlaces := by
  induction h with
  | refl => exact ⟨grewLast_of_eq rfl, hplaces⟩
  | tail _ hstep ih =>
    obtain ⟨hgrew, hnext⟩ := hstep.grewLast ih.2
    exact ⟨ih.1.trans hgrew, hnext⟩

end Tables

/-- A batch that goes through the writer is such a step, whether the writer records it or not. -/
theorem Database.ingests_record (batch : List RecordedTransfer) (db : Database)
    (hlast : ∀ r' ∈ ((record batch).run db).2.tables.transferRows, r' ∉ db.tables.transferRows →
      ∀ r ∈ db.tables.transferRows, r.position.le r'.position = true) :
    db.tables.Ingests ((record batch).run db).2.tables := by
  rcases tables_write (fun t => t.recordTransfers batch) db with hsame | ⟨n, hrecorded⟩
  · exact .elsewhere (congrArg Tables.transfers hsame)
  · exact .batch batch hrecorded hlast

end Custodian
