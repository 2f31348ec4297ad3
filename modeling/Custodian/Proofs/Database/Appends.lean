import Custodian.Proofs.Database.ReadBack
import Custodian.Proofs.Firsts
import Custodian.Proofs.Time.ColumnText
import Mathlib.Data.List.Induction

/-!
# The history of snapshots

Snapshots are appended one by one, each with an id and a moment of creation. The table holds the
first record of each id, in the order in which they came (`Database.appendSnapshots_eq`). What is
found of an asset of an account at or before an instant is a record of the last control point there
is (`SnapshotRecord.Latest`), with its id and its moment of creation. Of several records of this
point it is the one whose moment of creation comes last as text. As long as four digits are enough
for the years that is the one that was created last, but a year with a sign comes before all of
those, even if it is after them. Records that the database wrote by its clock are in the order of
the readings, whatever the clock shows (`Clock`).
-/

namespace Custodian

/-! ## The newest row -/

namespace CreationTime

variable {a b c : CreationTime}

theorem le_iff : a.le b = true ↔ a.text < b.text ∨ a.text = b.text ∧ a.number ≤ b.number :=
  decide_eq_true_iff

theorem le_refl (a : CreationTime) : a.le a = true := le_iff.mpr (Or.inr ⟨rfl, Nat.le_refl _⟩)

theorem le_trans (h : a.le b = true) (h' : b.le c = true) : a.le c = true := by
  rw [le_iff] at h h' ⊢
  rcases h with h | ⟨htext, hnumber⟩
  · rcases h' with h' | ⟨htext', -⟩
    · exact Or.inl (String.lt_trans h h')
    · exact Or.inl (htext' ▸ h)
  · rcases h' with h' | ⟨htext', hnumber'⟩
    · exact Or.inl (htext ▸ h')
    · exact Or.inr ⟨htext.trans htext', Nat.le_trans hnumber hnumber'⟩

theorem le_total (a b : CreationTime) : a.le b = true ∨ b.le a = true := by
  rw [le_iff, le_iff]
  by_cases htext : a.text = b.text
  · rcases Nat.le_total a.number b.number with h | h
    · exact Or.inl (Or.inr ⟨htext, h⟩)
    · exact Or.inr (Or.inr ⟨htext.symm, h⟩)
  · rcases String.le_total a.text b.text with h | h
    · refine Or.inl (Or.inl (Decidable.byContradiction fun hlt => htext ?_))
      exact String.le_antisymm h (String.not_lt.mp hlt)
    · refine Or.inr (Or.inl (Decidable.byContradiction fun hlt => htext ?_))
      exact String.le_antisymm (String.not_lt.mp hlt) h

/-- Given times are compared by their texts alone. -/
theorem le_given_iff {a b : String} : (given a).le (given b) = true ↔ a ≤ b := by
  rw [le_iff]
  show a < b ∨ a = b ∧ 0 ≤ 0 ↔ a ≤ b
  constructor
  · rintro (h | ⟨rfl, -⟩)
    · exact String.not_lt.mp (String.lt_asymm h)
    · exact String.le_refl a
  · intro h
    by_cases hlt : a < b
    · exact Or.inl hlt
    · exact Or.inr ⟨String.le_antisymm h (String.not_lt.mp hlt), Nat.le_refl 0⟩

theorem text_le_of_le (h : a.le b = true) : a.text ≤ b.text := by
  rcases le_iff.mp h with hlt | ⟨htext, -⟩
  · exact String.not_lt.mp (String.lt_asymm hlt)
  · exact htext ▸ String.le_refl a.text

/-- Of what the database wrote the later comes later. -/
theorem le_written_iff {m n : Nat} : (written m).le (written n) = true ↔ m ≤ n := by
  rw [le_iff]
  show present < present ∨ present = present ∧ m ≤ n ↔ m ≤ n
  exact ⟨fun h => h.elim (fun hlt => absurd hlt (String.lt_irrefl _)) And.right,
    fun h => Or.inr ⟨rfl, h⟩⟩

end CreationTime

/-- A clock, by the texts that it shows when the database reads it: none from before the present,
and none from before an earlier reading. -/
structure Clock where
  shows : Nat → String
  present_le : ∀ n, CreationTime.present ≤ shows n
  shows_le : ∀ m n, m ≤ n → shows m ≤ shows n

namespace Clock

variable {clock : Clock} {a b : CreationTime}

/-- The text of a creation time by a clock. -/
def text (clock : Clock) : CreationTime → String
  | .given text => text
  | .written number => clock.shows number

/-- A given time lies before the present, or beyond all readings of a clock. -/
def Spares (clock : Clock) : CreationTime → Prop
  | .given text => text < CreationTime.present ∨ ∀ n, clock.shows n < text
  | .written _ => True

/-- The order of creation is that of the texts by any clock that spares the given times. So it does
not matter that the present is only one text. -/
theorem text_le_of_le (ha : clock.Spares a) (hb : clock.Spares b) (h : a.le b = true) :
    clock.text a ≤ clock.text b := by
  cases a with
  | given a =>
    cases b with
    | given b => exact CreationTime.text_le_of_le h
    | written n =>
      have hpresent : a ≤ CreationTime.present := CreationTime.text_le_of_le h
      exact String.le_trans hpresent (clock.present_le n)
  | written m =>
    cases b with
    | given b =>
      have hpresent : CreationTime.present ≤ b := CreationTime.text_le_of_le h
      rcases hb with hbefore | hbeyond
      · exact absurd hbefore (String.not_lt.mpr hpresent)
      · exact String.not_lt.mp (String.lt_asymm (hbeyond m))
    | written n => exact clock.shows_le m n (CreationTime.le_written_iff.mp h)

/-- Times of all years before 2027 are spared, and of all that have a sign. -/
theorem spares_time {t : Time.Timestamp} (h : t.civil.year < 2027 ∨ 9999 < t.civil.year) :
    clock.Spares (.ofMoment (.time t)) := by
  have hpresent : CreationTime.present.toList = Decimal.paddedDigits 2027 4 ++ [] := by decide
  have hlt : (t.civil.textWith " ").toList < CreationTime.present.toList := by
    rw [Time.Civil.toList_textWith]
    by_cases hyear : t.civil.FourDigits
    · rw [Time.toList_yearText hyear, hpresent]
      obtain ⟨hlower, hupper⟩ := hyear
      have hfour : t.civil.year.toNat < 10000 := by omega
      exact Time.paddedDigits_append_lt (by decide) hfour (by decide) (Or.inl (by omega))
    · obtain ⟨sign, rest, htext, hsign⟩ := Time.exists_sign hyear
      rw [htext]
      exact List.cons_lt_cons_iff.mpr (Or.inl (Nat.lt_trans hsign (by decide : 48 < 50)))
  exact Or.inl hlt

end Clock

namespace Tables

variable {a b c : SnapshotRow} {rows : List SnapshotRow}

theorem isNewer_iff : isNewer a b = true ↔
    b.control < a.control ∨ a.control = b.control ∧ b.created.le a.created = true := by
  unfold isNewer
  rw [Bool.or_eq_true, Bool.and_eq_true, decide_eq_true_eq, beq_iff_eq]

theorem isNewer_refl (a : SnapshotRow) : isNewer a a = true :=
  isNewer_iff.mpr (Or.inr ⟨rfl, a.created.le_refl⟩)

theorem isNewer_trans (h : isNewer a b = true) (h' : isNewer b c = true) :
    isNewer a c = true := by
  rw [isNewer_iff] at h h' ⊢
  rcases h with h | ⟨hcontrol, hcreated⟩
  · rcases h' with h' | ⟨hcontrol', -⟩
    · exact Or.inl (Int64.lt_trans h' h)
    · exact Or.inl (hcontrol' ▸ h)
  · rcases h' with h' | ⟨hcontrol', hcreated'⟩
    · exact Or.inl (hcontrol ▸ h')
    · exact Or.inr ⟨hcontrol.trans hcontrol', CreationTime.le_trans hcreated' hcreated⟩

theorem isNewer_total (a b : SnapshotRow) : isNewer a b = true ∨ isNewer b a = true := by
  rw [isNewer_iff, isNewer_iff]
  by_cases hcontrol : a.control = b.control
  · rcases CreationTime.le_total a.created b.created with h | h
    · exact Or.inr (Or.inr ⟨hcontrol.symm, h⟩)
    · exact Or.inl (Or.inr ⟨hcontrol, h⟩)
  · rcases Int64.le_total a.control b.control with h | h
    · exact Or.inr (Or.inl (Int64.lt_iff_le_and_ne.mpr ⟨h, hcontrol⟩))
    · exact Or.inl (Or.inl (Int64.lt_iff_le_and_ne.mpr ⟨h, Ne.symm hcontrol⟩))

theorem newest_append_singleton (rows : List SnapshotRow) (r : SnapshotRow) :
    newest (rows ++ [r]) =
      match newest rows with
      | .none => some r
      | some b => if isNewer r b then some r else some b := by
  unfold newest
  rw [List.foldl_append]
  rfl

theorem newest_eq_none_iff : newest rows = .none ↔ rows = [] := by
  constructor
  · intro h
    induction rows using List.reverseRecOn with
    | nil => rfl
    | append_singleton rows r _ =>
      rw [newest_append_singleton] at h
      split at h
      · cases h
      · split at h <;> cases h
  · rintro rfl
    rfl

/-- No row comes after the newest one. -/
theorem isNewer_of_newest (h : newest rows = some a) : ∀ b ∈ rows, isNewer a b = true := by
  induction rows using List.reverseRecOn generalizing a with
  | nil => cases h
  | append_singleton rows r ih =>
    intro b hb
    rw [newest_append_singleton] at h
    rw [List.mem_append, List.mem_singleton] at hb
    split at h
    · rename_i hnone
      cases h
      rw [newest_eq_none_iff.mp hnone] at hb
      rcases hb with hb | rfl
      · exact absurd hb List.not_mem_nil
      · exact isNewer_refl b
    · rename_i best hbest
      split at h
      · rename_i hnewer
        cases h
        rcases hb with hb | rfl
        · exact isNewer_trans hnewer (ih hbest b hb)
        · exact isNewer_refl b
      · rename_i hnewer
        cases h
        rcases hb with hb | rfl
        · exact ih hbest b hb
        · exact (isNewer_total _ _).resolve_left hnewer

end Tables

/-! ## Records -/

namespace SnapshotRecord

open SnapshotRow (ofRecord)

/-- Whether a record is one of an asset of an account. -/
def isOf (account asset : String) (r : SnapshotRecord) : Bool :=
  r.snapshot.account == account && r.snapshot.asset == asset

/-- Whether a record is one of an asset of an account at or before an instant. -/
def isUpTo (account asset : String) (time : Int64) (r : SnapshotRecord) : Bool :=
  r.isOf account asset && decide (r.snapshot.control ≤ time)

/-- The moment of creation as it is kept. -/
def kept (r : SnapshotRecord) : CreationTime := .ofMoment r.created

/-- A record of the last control point and, of those of this point, of the last moment of creation.
Of a given time it is the text that counts, and so the time itself for years of four digits; of what
the database wrote it is the reading. Whatever its clock shows, the text by this clock is the last
if it spares the given times. -/
structure Latest (r : SnapshotRecord) (records : List SnapshotRecord) : Prop where
  mem : r ∈ records
  control : ∀ r' ∈ records, r'.snapshot.control ≤ r.snapshot.control
  text : ∀ r' ∈ records, r'.snapshot.control = r.snapshot.control → r'.kept.text ≤ r.kept.text
  created : ∀ r' ∈ records, r'.snapshot.control = r.snapshot.control → ∀ t t',
    r.created = .time t → r'.created = .time t' → t'.civil.FourDigits →
      t.civil.FourDigits ∧ t'.civil ≤ t.civil
  reading : ∀ r' ∈ records, r'.snapshot.control = r.snapshot.control → ∀ n n',
    r.created = .reading n → r'.created = .reading n' → n' ≤ n
  byClock : ∀ clock : Clock, (∀ r' ∈ records, clock.Spares r'.kept) →
    ∀ r' ∈ records, r'.snapshot.control = r.snapshot.control →
      clock.text r'.kept ≤ clock.text r.kept

variable {r r' : SnapshotRecord} {records : List SnapshotRecord}

theorem isNewer_ofRecord : Tables.isNewer (ofRecord r) (ofRecord r') = true ↔
    r'.snapshot.control < r.snapshot.control ∨ r.snapshot.control = r'.snapshot.control ∧
      r'.kept.le r.kept = true := Tables.isNewer_iff

/-- A text that comes no earlier, among those of years of four digits, is of a time that is no
earlier. -/
theorem civil_le_of_columnText_le {t t' : Time.Timestamp} (hyear' : t'.civil.FourDigits)
    (h : t'.columnText ≤ t.columnText) : t.civil.FourDigits ∧ t'.civil ≤ t.civil := by
  have hyear : t.civil.FourDigits :=
    Decidable.byContradiction fun hsigned => h (Time.Civil.signed_lt hsigned hyear' " ")
  refine ⟨hyear, Time.Civil.not_lt.mp fun hlt => h ?_⟩
  exact Time.Civil.textWith_lt t.isValid t'.isValid hyear hyear' hlt " "

/-- The newest of the rows of records is that of the latest record. -/
theorem latest_of_newest (hmem : r ∈ records)
    (h : ∀ r' ∈ records, Tables.isNewer (ofRecord r) (ofRecord r') = true) : r.Latest records := by
  have hkept : ∀ r' ∈ records, r'.snapshot.control = r.snapshot.control →
      r'.kept.le r.kept = true := by
    intro r' hr' hcontrol
    rcases isNewer_ofRecord.mp (h r' hr') with hlt | ⟨-, hle⟩
    · rw [hcontrol] at hlt
      exact absurd hlt Int64.lt_irrefl
    · exact hle
  have htext : ∀ r' ∈ records, r'.snapshot.control = r.snapshot.control →
      r'.kept.text ≤ r.kept.text := fun r' hr' hcontrol =>
    CreationTime.text_le_of_le (hkept r' hr' hcontrol)
  refine ⟨hmem, fun r' hr' => ?_, htext, fun r' hr' hcontrol t t' ht ht' hyear' => ?_,
    fun r' hr' hcontrol n n' hn hn' => ?_, fun clock hspares r' hr' hcontrol => ?_⟩
  · rcases isNewer_ofRecord.mp (h r' hr') with hlt | ⟨hcontrol, -⟩
    · exact Int64.le_of_lt hlt
    · exact hcontrol ▸ Int64.le_refl _
  · have hle := htext r' hr' hcontrol
    unfold kept at hle
    rw [ht, ht'] at hle
    exact civil_le_of_columnText_le hyear' hle
  · have hle := hkept r' hr' hcontrol
    unfold kept at hle
    rw [hn, hn'] at hle
    exact CreationTime.le_written_iff.mp hle
  · exact Clock.text_le_of_le (hspares r' hr') (hspares r hmem) (hkept r' hr' hcontrol)

end SnapshotRecord

/-! ## The table of records -/

namespace Tables

open SnapshotRecord
open SnapshotRow (ofRecord)

variable {t : Tables} {kept : List SnapshotRecord}

theorem upTo_map_ofRecord (kept : List SnapshotRecord) (account asset : String) (time : Int64) :
    upTo (kept.map ofRecord) account asset time =
      (kept.filter (isUpTo account asset time)).map ofRecord := by
  unfold upTo
  rw [List.filter_map]
  rfl

/-- Nothing is found where there is no record. -/
theorem recordUpTo_eq_none (h : t.snapshots = some (kept.map ofRecord)) {account asset : String}
    {time : Int64} (hnone : kept.filter (isUpTo account asset time) = []) :
    t.recordUpTo account asset time = .ok .none := by
  rw [recordUpTo_eq h, upTo_map_ofRecord, hnone]
  rfl

/-- Where there are records the latest of them is found. -/
theorem exists_latest (h : t.snapshots = some (kept.map ofRecord)) {account asset : String}
    {time : Int64} (hsome : kept.filter (isUpTo account asset time) ≠ []) :
    ∃ r : SnapshotRecord, r.Latest (kept.filter (isUpTo account asset time)) ∧
      t.recordUpTo account asset time = .ok (some r.stored) := by
  rcases hnewest : newest (upTo (kept.map ofRecord) account asset time) with _ | found
  · rw [newest_eq_none_iff, upTo_map_ofRecord, List.map_eq_nil_iff] at hnewest
    exact absurd hnewest hsome
  · have hfound := mem_of_newest hnewest
    rw [upTo_map_ofRecord] at hfound
    obtain ⟨r, hr, rfl⟩ := List.mem_map.mp hfound
    refine ⟨r, latest_of_newest hr fun r' hr' => ?_, ?_⟩
    · refine isNewer_of_newest hnewest (ofRecord r') ?_
      rw [upTo_map_ofRecord]
      exact List.mem_map_of_mem hr'
    · rw [recordUpTo_eq h, hnewest]
      simp only
      rw [SnapshotRow.toRecord_ofRecord]
      rfl

/-- All records of an asset of an account are listed by control point. -/
theorem exists_listRecords (h : t.snapshots = some (kept.map ofRecord)) (account asset : String) :
    ∃ found : List SnapshotRecord,
      t.listRecords account asset = .ok (found.map SnapshotRecord.stored) ∧
      found.Perm (kept.filter (isOf account asset)) ∧
      found.Pairwise fun r r' => r.snapshot.control ≤ r'.snapshot.control := by
  refine ⟨_, listRecords_ofRecord h account asset, List.mergeSort_perm _ _, ?_⟩
  refine (List.pairwise_mergeSort ?_ ?_ _).imp fun h => of_decide_eq_true h
  · intro a b c hab hbc
    exact decide_eq_true (Int64.le_trans (of_decide_eq_true hab) (of_decide_eq_true hbc))
  · intro a b
    rw [Bool.or_eq_true, decide_eq_true_eq, decide_eq_true_eq]
    exact Int64.le_total _ _

/-- A record is refused if its id is taken, and otherwise comes last. -/
theorem insertSnapshot_ofRecord (h : t.snapshots = some (kept.map ofRecord))
    (r : SnapshotRecord) :
    t.insertSnapshot (ofRecord r) =
      if kept.any (fun r' => r'.id == r.id) then .error (keyTaken .snapshots ["id"])
      else .ok { t with snapshots := some ((kept ++ [r]).map ofRecord) } := by
  have hinsert : insertInto (kept.map ofRecord) (ofRecord r) snapshotKeys =
      if kept.any (fun r' => r'.id == r.id) then .error (keyTaken .snapshots ["id"])
      else .ok ((kept ++ [r]).map ofRecord) := by
    have hid : ((kept.map ofRecord).any fun a => a.id == (ofRecord r).id) =
        kept.any fun r' => r'.id == r.id := List.any_map
    unfold insertInto snapshotKeys
    rw [List.find?_singleton, hid]
    rcases kept.any fun r' => r'.id == r.id with _ | _
    · rw [List.map_append]
      rfl
    · rfl
  unfold insertSnapshot
  rw [h]
  show insertInto (kept.map ofRecord) (ofRecord r) snapshotKeys >>= _ = _
  rw [hinsert]
  split
  · rfl
  · rfl

end Tables

/-! ## Histories -/

namespace Database

open SnapshotRecord
open SnapshotRow (ofRecord)

/-- Appends a snapshot through the writer. -/
def appendSnapshot (r : SnapshotRecord) : StateM Database (Except Error Unit) :=
  write fun t => do return ((), ← t.insertSnapshot (ofRecord r))

/-- A new database after snapshots that were appended one after another. -/
def appendSnapshots (history : List SnapshotRecord) : Database :=
  history.foldl (fun db r => ((appendSnapshot r).run db).2) fresh

/-- A database with these records and nothing else. -/
def holdingSnapshots (kept : List SnapshotRecord) : Database :=
  ofTables { Tables.fresh with snapshots := some (kept.map ofRecord) }

/-- The error of an append whose id is taken. -/
def idTaken : Error := (StorageFault.engine (Tables.keyTaken .snapshots ["id"])).toError

variable {history kept : List SnapshotRecord} {r : SnapshotRecord}

theorem run_appendSnapshot_of_taken (h : r.id ∈ kept.map SnapshotRecord.id) :
    (appendSnapshot r).run (holdingSnapshots kept) = (.error idTaken, holdingSnapshots kept) := by
  have htaken : (kept.any fun r' => r'.id == r.id) = true := by
    obtain ⟨r', hr', hid⟩ := List.mem_map.mp h
    exact List.any_eq_true.mpr ⟨r', hr', beq_iff_eq.mpr hid⟩
  refine write_of_error rfl ?_
  rw [Tables.insertSnapshot_ofRecord rfl, if_pos htaken]
  rfl

theorem run_appendSnapshot_of_free (h : r.id ∉ kept.map SnapshotRecord.id) :
    (appendSnapshot r).run (holdingSnapshots kept) = (.ok (), holdingSnapshots (kept ++ [r])) := by
  have hfree : ¬ (kept.any fun r' => r'.id == r.id) = true := by
    intro htaken
    obtain ⟨r', hr', hid⟩ := List.any_eq_true.mp htaken
    exact h (List.mem_map.mpr ⟨r', hr', beq_iff_eq.mp hid⟩)
  refine write_of_ok rfl ?_
  rw [Tables.insertSnapshot_ofRecord rfl, if_neg hfree]
  rfl

/-- After any history the table holds the first record of each id. -/
theorem appendSnapshots_eq (history : List SnapshotRecord) :
    appendSnapshots history = holdingSnapshots (firsts SnapshotRecord.id history) := by
  induction history using List.reverseRecOn with
  | nil => rfl
  | append_singleton history r ih =>
    unfold appendSnapshots at ih ⊢
    rw [List.foldl_append, List.foldl_cons, List.foldl_nil, ih, firsts_concat]
    split
    · rename_i htaken
      rw [run_appendSnapshot_of_taken (mem_keys_firsts.mpr htaken)]
    · rename_i hfree
      rw [run_appendSnapshot_of_free fun htaken => hfree (mem_keys_firsts.mp htaken)]

/-- An append fails and changes nothing if its id came before, and otherwise adds its record. -/
theorem run_appendSnapshot (history : List SnapshotRecord) (r : SnapshotRecord) :
    (appendSnapshot r).run (appendSnapshots history) =
      if r.id ∈ history.map SnapshotRecord.id then (.error idTaken, appendSnapshots history)
      else (.ok (), holdingSnapshots (firsts SnapshotRecord.id history ++ [r])) := by
  rw [appendSnapshots_eq]
  split
  · rename_i htaken
    exact run_appendSnapshot_of_taken (mem_keys_firsts.mpr htaken)
  · rename_i hfree
    exact run_appendSnapshot_of_free fun htaken => hfree (mem_keys_firsts.mp htaken)

/-- The records that are kept are those that were appended with success. -/
theorem mem_firsts_iff_appended : r ∈ firsts SnapshotRecord.id history ↔
    ∃ before later, history = before ++ r :: later ∧
      ((appendSnapshot r).run (appendSnapshots before)).1 = .ok () := by
  rw [mem_firsts_iff]
  refine exists_congr fun before => exists_congr fun later => and_congr_right fun _ => ?_
  rw [run_appendSnapshot]
  split
  · rename_i htaken
    refine iff_of_false (fun hfree => hfree htaken) fun h => ?_
    cases h
  · rename_i hfree
    exact iff_of_true hfree rfl

/-- The history of snapshots is kept, and answers look-ups. After any history of appends the table
holds the first record of each id and nothing else. One more append fails and changes nothing if its
id came before, and otherwise adds exactly its record at the end; what is kept stays as it is,
whatever comes later. An asset of an account has a snapshot at or before an instant exactly if one
was appended; what is found then, with its id and its moment of creation, is a record of the last
control point and, of those of this point, of the last moment of creation as text, which is the time
that was last if four digits are enough for the years. All records of an asset of an account are
listed, each once, by control point. -/
theorem snapshots_after_appends (history : List SnapshotRecord) :
    let kept := firsts SnapshotRecord.id history
    appendSnapshots history = holdingSnapshots kept ∧
    (∀ r, r ∈ kept ↔ ∃ before later, history = before ++ r :: later ∧
      ((appendSnapshot r).run (appendSnapshots before)).1 = .ok ()) ∧
    (∀ r, r.id ∈ history.map SnapshotRecord.id →
      (appendSnapshot r).run (appendSnapshots history) =
        (.error idTaken, appendSnapshots history)) ∧
    (∀ r, r.id ∉ history.map SnapshotRecord.id →
      (appendSnapshot r).run (appendSnapshots history) =
        (.ok (), holdingSnapshots (kept ++ [r]))) ∧
    (∀ later, kept <+: firsts SnapshotRecord.id (history ++ later)) ∧
    (∀ account asset time, (∀ r ∈ kept, r.isUpTo account asset time = false) →
      (appendSnapshots history).tables.recordUpTo account asset time = .ok none ∧
        (appendSnapshots history).tables.snapshotUpTo account asset time = .ok none) ∧
    (∀ account asset time, (∃ r ∈ kept, r.isUpTo account asset time = true) →
      ∃ r : SnapshotRecord, r.Latest (kept.filter (isUpTo account asset time)) ∧
        (appendSnapshots history).tables.recordUpTo account asset time = .ok (some r.stored) ∧
        (appendSnapshots history).tables.snapshotUpTo account asset time =
          .ok (some r.snapshot.stored)) ∧
    ∀ account asset, ∃ found : List SnapshotRecord,
      (appendSnapshots history).tables.listRecords account asset =
        .ok (found.map SnapshotRecord.stored) ∧
      (appendSnapshots history).tables.listSnapshots account asset =
        .ok (found.map fun r => r.snapshot.stored) ∧
      found.Perm (kept.filter (isOf account asset)) ∧
      (found.map SnapshotRecord.id).Nodup ∧
      found.Pairwise fun r r' => r.snapshot.control ≤ r'.snapshot.control := by
  intro kept
  have htable : (appendSnapshots history).tables.snapshots = some (kept.map ofRecord) := by
    rw [appendSnapshots_eq]
    rfl
  refine ⟨appendSnapshots_eq history, fun r => mem_firsts_iff_appended, fun r htaken => ?_,
    fun r hfree => ?_, fun later => ?_, fun account asset time hnone => ?_,
    fun account asset time ⟨r, hr, hupTo⟩ => ?_, fun account asset => ?_⟩
  · rw [run_appendSnapshot, if_pos htaken]
  · rw [run_appendSnapshot, if_neg hfree]
  · rw [firsts_append]
    exact prefix_keepFirst _ _
  · have hfound := Tables.recordUpTo_eq_none htable (List.filter_eq_nil_iff.mpr fun r hr =>
      Bool.eq_false_iff.mp (hnone r hr))
    exact ⟨hfound, Tables.snapshotUpTo_of_recordUpTo hfound⟩
  · have hsome := List.ne_nil_of_mem (List.mem_filter.mpr ⟨hr, hupTo⟩)
    obtain ⟨r, hlatest, hfound⟩ := Tables.exists_latest htable hsome
    exact ⟨r, hlatest, hfound, Tables.snapshotUpTo_of_recordUpTo hfound⟩
  · obtain ⟨found, hlist, hperm, hsorted⟩ := Tables.exists_listRecords htable account asset
    refine ⟨found, hlist, ?_, hperm, ?_, hsorted⟩
    · rw [Tables.listSnapshots_of_listRecords hlist, List.map_map]
      rfl
    · refine (hperm.map SnapshotRecord.id).nodup_iff.mpr ?_
      exact (nodup_firsts history).sublist (List.filter_sublist.map _)

/-- Of two snapshots of one control point that are created at the turn of the year 10000, the one
before it is found and not the one after it, whose year has a sign. -/
theorem snapshot_before_year_10000_found :
    let record (id : String) (balance : Decimal) (millis : Int) : SnapshotRecord :=
      ⟨.given id, ⟨"alice@bank", "usd#bank", .zero, 5, balance⟩, .time (.ofMillis millis)⟩
    let before := record "before" .zero 253402300799999
    let behind := record "behind" .one 253402300800000
    let db := appendSnapshots [before, behind]
    Time.Civil.ofMillis 253402300799999 < Time.Civil.ofMillis 253402300800000 ∧
    (appendSnapshot behind).run (appendSnapshots [before]) = (.ok (), db) ∧
    (appendSnapshot before).run db = (.error idTaken, db) ∧
    db.tables.recordUpTo "alice@bank" "usd#bank" 4 = .ok none ∧
    db.tables.recordUpTo "alice@bank" "usd#bank" 9 = .ok (some before) ∧
    db.tables.snapshotUpTo "alice@bank" "usd#bank" 9 = .ok (some before.snapshot) ∧
    ∃ found, db.tables.listRecords "alice@bank" "usd#bank" = .ok found ∧ found.length = 2 := by
  intro record before behind db
  obtain ⟨heq, -, htaken, -, -, hnone, hsome, hlist⟩ := snapshots_after_appends [before, behind]
  obtain ⟨-, -, -, hfree, -⟩ := snapshots_after_appends [before]
  have hkept : firsts SnapshotRecord.id [before, behind] = [before, behind] := rfl
  have hupTo : [before, behind].filter (isUpTo "alice@bank" "usd#bank" 9) = [before, behind] := rfl
  rw [hkept] at heq hnone hsome hlist
  refine ⟨Time.Civil.ofMillis_lt_iff.mpr (by decide), ?_, htaken before List.mem_cons_self, ?_, ?_⟩
  · rw [hfree behind (by decide)]
    exact Prod.ext rfl heq.symm
  · refine (hnone "alice@bank" "usd#bank" 4 fun r hr => ?_).1
    rcases List.mem_pair.mp hr with rfl | rfl <;> rfl
  · obtain ⟨r, hlatest, hrecord, hfound⟩ :=
      hsome "alice@bank" "usd#bank" 9 ⟨before, List.mem_cons_self, rfl⟩
    obtain ⟨found, hlisted, -, hperm, -⟩ := hlist "alice@bank" "usd#bank"
    have hlength : (found.map SnapshotRecord.stored).length = 2 := by
      rw [List.length_map, hperm.length_eq]
      rfl
    rw [hupTo] at hlatest
    rcases List.mem_pair.mp hlatest.mem with rfl | rfl
    · exact ⟨hrecord, hfound, _, hlisted, hlength⟩
    · -- four digits are enough for the other year, but not for this one
      have hyear := hlatest.created before List.mem_cons_self rfl _ _ rfl rfl (by decide)
      exact absurd hyear.1 (by decide)

end Database

end Custodian
