import Custodian.Ledger.Page

/-!
# Page after page

Rows read page after page are the rows themselves (`take_offset_append_slice`), and a page
without a successor is the last one that has rows, as long as pages can be counted in 32 bits
(`Page.total_le_of_last`).
-/

namespace Custodian

namespace PageRequest

variable {α : Type} (r : PageRequest)

theorem check_eq_ok_iff : r.check = .ok () ↔ 0 < r.number ∧ 0 < r.size := by
  unfold check
  split
  · rename_i h
    constructor
    · intro h'
      cases h'
    · intro h'
      omega
  · split
    · constructor
      · intro h'
        cases h'
      · intro h'
        omega
    · constructor
      · intro _
        omega
      · intro _
        rfl

/-- Where this page ends. -/
theorem offset_add_size (h : 0 < r.number) : r.offset + r.size = r.number * r.size := by
  unfold offset
  obtain ⟨n, hn⟩ : ∃ n, r.number = n + 1 := ⟨r.number - 1, by omega⟩
  rw [hn, Nat.add_sub_cancel, Nat.succ_mul]

/-- What the pages before this one hold, and what this one holds. -/
theorem take_offset_append_slice (h : 0 < r.number) (rows : List α) :
    rows.take r.offset ++ r.slice rows = rows.take (r.number * r.size) := by
  unfold slice
  rw [← List.take_add, r.offset_add_size h]

/-- What this page holds, and what those after it hold. -/
theorem slice_append_drop (h : 0 < r.number) (rows : List α) :
    r.slice rows ++ rows.drop (r.number * r.size) = rows.drop r.offset := by
  unfold slice
  rw [← r.offset_add_size h, ← List.drop_drop, List.take_append_drop]

theorem slice_sublist (rows : List α) : (r.slice rows).Sublist rows :=
  (List.take_sublist _ _).trans (List.drop_sublist _ _)

/-- The first pages hold the first rows. -/
theorem flatMap_slice (size : Nat) (rows : List α) (n : Nat) :
    ((List.range' 1 n).flatMap fun k => slice ⟨k, size⟩ rows) = rows.take (n * size) := by
  induction n with
  | zero => rw [Nat.zero_mul, List.take_zero, List.range'_zero, List.flatMap_nil]
  | succ n ih =>
    have hpage := take_offset_append_slice ⟨1 + n, size⟩ (Nat.lt_add_right n Nat.one_pos) rows
    rw [List.range'_concat, List.flatMap_append, ih, Nat.one_mul, Nat.add_comm n 1, ← hpage]
    show rows.take (n * size) ++ ([1 + n].flatMap fun k => slice ⟨k, size⟩ rows) =
      rows.take ((1 + n - 1) * size) ++ slice ⟨1 + n, size⟩ rows
    rw [List.flatMap_singleton, Nat.add_sub_cancel_left]

/-- Behind the last row a page is empty. -/
theorem slice_eq_nil {rows : List α} (h : rows.length ≤ r.offset) : r.slice rows = [] := by
  unfold slice
  rw [List.drop_of_length_le h, List.take_nil]

end PageRequest

namespace Page

variable {α : Type} {r : PageRequest} {listing : Listing α}

/-- A page with a successor is full, and there are rows behind it. -/
theorem lt_total_of_hasNext (hsize : 0 < r.size) (h : (ofListing r listing).hasNext = true) :
    r.number * r.size < listing.total := by
  have hlt : r.number < countPages r.size listing.total := of_decide_eq_true h
  unfold countPages at hlt
  rw [Nat.max_eq_left hsize] at hlt
  have hpages := Nat.lt_of_lt_of_le hlt (Nat.min_le_right _ _)
  have hmul := (Nat.le_div_iff_mul_le hsize).mp (Nat.succ_le_of_lt hpages)
  rw [Nat.succ_mul] at hmul
  omega

/-- Behind a page without a successor there are no rows, unless there are more pages than can
be counted. -/
theorem total_le_of_last (hsize : 0 < r.size) (h : (ofListing r listing).hasNext ≠ true) :
    listing.total ≤ r.number * r.size ∨ maxPage ≤ r.number := by
  have hle : countPages r.size listing.total ≤ r.number :=
    Nat.le_of_not_lt fun hlt => h (decide_eq_true hlt)
  unfold countPages at hle
  rw [Nat.max_eq_left hsize] at hle
  rcases Nat.le_total maxPage ((listing.total + r.size - 1) / r.size) with hmax | hmax
  · right
    rwa [Nat.min_eq_left hmax] at hle
  · left
    rw [Nat.min_eq_right hmax] at hle
    have hlt := Nat.lt_mul_div_succ (listing.total + r.size - 1) hsize
    have hmul := Nat.lt_of_lt_of_le hlt (Nat.mul_le_mul_left r.size (Nat.succ_le_succ hle))
    rw [Nat.mul_comm, Nat.succ_mul] at hmul
    omega

/-- Where the pages can be counted in 32 bits, there are as many as it takes. -/
theorem countPages_of_le {size total : Nat} (hsize : 0 < size) (h : total ≤ size * maxPage) :
    countPages size total = (total + size - 1) / size := by
  have hle : (total + size - 1) / size ≤ maxPage := by
    rw [← Nat.lt_succ_iff, Nat.div_lt_iff_lt_mul hsize, Nat.succ_mul, Nat.mul_comm]
    omega
  unfold countPages
  simp only [Nat.max_eq_left hsize]
  exact Nat.min_eq_right hle

/-- All rows are on the pages there are, as long as pages can be counted in 32 bits. -/
theorem le_countPages_mul {size total : Nat} (hsize : 0 < size) (h : total ≤ size * maxPage) :
    total ≤ countPages size total * size := by
  have hlt := Nat.lt_mul_div_succ (total + size - 1) hsize
  rw [countPages_of_le hsize h]
  rw [Nat.mul_succ, Nat.mul_comm] at hlt
  omega

/-- No more rows come before one of the pages there are than there are in all. -/
theorem offset_le_of_le_countPages {size total n : Nat} (hsize : 0 < size)
    (h : n ≤ countPages size total) : (PageRequest.mk n size).offset ≤ total := by
  have hle : n ≤ (total + size - 1) / size := by
    refine Nat.le_trans h ?_
    unfold countPages
    rw [Nat.max_eq_left hsize]
    exact Nat.min_le_right _ _
  have hmul : n * size ≤ total + size - 1 := (Nat.le_div_iff_mul_le hsize).mp hle
  show (n - 1) * size ≤ total
  rw [Nat.sub_mul, Nat.one_mul]
  omega

end Page

end Custodian
