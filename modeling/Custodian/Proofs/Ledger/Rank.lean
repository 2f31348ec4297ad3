import Custodian.Proofs.Ledger.Paging
import Mathlib.Data.List.Count
import Mathlib.Order.Lattice

/-!
# Ranks and pages

In rows that are in strict order a row stands on the page that its rank falls on, the rank being
the number of rows before it (`PageRequest.mem_slice_iff`). If rows are added while pages are read
one after another ranks only grow. A row then stands on one of the pages as long as its rank falls
on them in the end (`exists_stands`), and on one only if its rank stays as it was read there
(`eq_of_stands`).
-/

namespace Custodian

namespace PageRequest

variable {α β : Type} [LinearOrder β] {key : α → β} {rows : List α} {a : α}

/-- The number of rows before one with a given key. -/
def rank (key : α → β) (rows : List α) (a : α) : Nat := rows.countP fun b => decide (key b < key a)

/-- In strict order the rank of a row is its place. -/
theorem rank_getElem (h : rows.Pairwise fun a b => key a < key b) (i : Nat) (hi : i < rows.length) :
    rank key rows rows[i] = i := by
  have hsplit : rank key rows rows[i] =
      (rows.take i).countP (fun b => decide (key b < key rows[i])) +
        (rows.drop i).countP fun b => decide (key b < key rows[i]) := by
    rw [← List.countP_append, List.take_append_drop]
    rfl
  have hbefore : (rows.take i).countP (fun b => decide (key b < key rows[i])) = i := by
    have hall : ∀ b ∈ rows.take i, decide (key b < key rows[i]) = true := by
      intro b hb
      obtain ⟨j, hj, rfl⟩ := List.mem_take_iff_getElem.mp hb
      rw [decide_eq_true_eq]
      exact List.pairwise_iff_getElem.mp h j i _ hi (by omega)
    rw [List.countP_eq_length.mpr hall, List.length_take, Nat.min_eq_left (Nat.le_of_lt hi)]
  have hbehind : (rows.drop i).countP (fun b => decide (key b < key rows[i])) = 0 := by
    rw [List.countP_eq_zero]
    intro b hb
    obtain ⟨j, hj, rfl⟩ := List.mem_drop_iff_getElem.mp hb
    rw [decide_eq_true_eq, not_lt]
    rcases Nat.eq_zero_or_pos j with rfl | hpos
    · simp
    · exact le_of_lt (List.pairwise_iff_getElem.mp h i (i + j) hi (by omega) (by omega))
  rw [hsplit, hbefore, hbehind, Nat.add_zero]

theorem rank_lt_length (h : rows.Pairwise fun a b => key a < key b) (ha : a ∈ rows) :
    rank key rows a < rows.length := by
  obtain ⟨i, hi, rfl⟩ := List.mem_iff_getElem.mp ha
  rw [rank_getElem h]
  exact hi

/-- A row stands on the page that its rank falls on. -/
theorem mem_slice_iff (r : PageRequest) (hnumber : 0 < r.number)
    (h : rows.Pairwise fun a b => key a < key b) (ha : a ∈ rows) :
    a ∈ r.slice rows ↔ r.offset ≤ rank key rows a ∧ rank key rows a < r.number * r.size := by
  rw [← r.offset_add_size hnumber]
  unfold slice
  constructor
  · intro hmem
    obtain ⟨i, hi, rfl⟩ := List.mem_take_iff_getElem.mp hmem
    rw [List.getElem_drop, rank_getElem h]
    omega
  · rintro ⟨hoffset, hsize⟩
    obtain ⟨i, hi, rfl⟩ := List.mem_iff_getElem.mp ha
    rw [rank_getElem h] at hoffset hsize
    refine List.mem_take_iff_getElem.mpr ⟨i - r.offset, ?_, ?_⟩
    · rw [List.length_drop]
      omega
    · simp only [List.getElem_drop]
      congr 1
      omega

end PageRequest

/-! ## Ranks that grow -/

/-- A row with these ranks, page by page, stands on a page. -/
def Stands (size : Nat) (rank : Nat → Nat) (n : Nat) : Prop :=
  (n - 1) * size ≤ rank n ∧ rank n < n * size

variable {size last : Nat} {rank : Nat → Nat}

instance : DecidablePred (Stands size rank) := fun _ => inferInstanceAs (Decidable (_ ∧ _))

/-- A row whose rank falls on the pages in the end stands on one of them. -/
theorem exists_stands (hgrows : ∀ n, rank n ≤ rank (n + 1)) (hlast : rank last < last * size) :
    ∃ n, 0 < n ∧ n ≤ last ∧ Stands size rank n := by
  -- on the first page behind which the row does not stand
  induction last with
  | zero => omega
  | succ n ih =>
    by_cases hearlier : rank n < n * size
    · obtain ⟨m, hpos, hle, hstands⟩ := ih hearlier
      exact ⟨m, hpos, by omega, hstands⟩
    · refine ⟨n + 1, by omega, Nat.le_refl _, ?_, hlast⟩
      rw [Nat.add_sub_cancel]
      exact Nat.le_trans (Nat.le_of_not_lt hearlier) (hgrows n)

/-- A row whose rank stays as it was read stands on one page. -/
theorem eq_of_stands {n m : Nat} (hn : Stands size rank n) (hm : Stands size rank m)
    (hsame : rank n = rank m) : n = m := by
  obtain ⟨hn, hn'⟩ := hn
  obtain ⟨hm, hm'⟩ := hm
  have hlt : ∀ i j : Nat, (i - 1) * size ≤ rank n → rank n < j * size → i ≤ j := by
    intro i j hi hj
    have h := Nat.lt_of_mul_lt_mul_right (Nat.lt_of_le_of_lt hi hj)
    omega
  rw [← hsame] at hm hm'
  exact Nat.le_antisymm (hlt n m hn hm') (hlt m n hm hn')

/-- What each of several lists has once or not at all they have as often as there are lists that
have it. -/
theorem count_flatMap_eq_countP {ι α : Type} [BEq α] {f : ι → List α} {p : ι → Bool}
    {items : List ι} {a : α} (h : ∀ i ∈ items, (f i).count a = if p i then 1 else 0) :
    (items.flatMap f).count a = items.countP p := by
  induction items with
  | nil => rfl
  | cons i items ih =>
    rw [List.flatMap_cons, List.count_append, List.countP_cons, h i List.mem_cons_self,
      ih fun j hj => h j (List.mem_cons_of_mem _ hj), Nat.add_comm]

/-- What holds of one thing at most it holds of once. -/
theorem countP_le_one {ι : Type} {p : ι → Bool} {items : List ι} (hitems : items.Nodup)
    (hone : ∀ i ∈ items, ∀ j ∈ items, p i = true → p j = true → i = j) :
    items.countP p ≤ 1 := by
  rw [List.countP_eq_length_filter]
  have hfilter : (items.filter p).Nodup := hitems.filter p
  rcases hfound : items.filter p with _ | ⟨i, _ | ⟨j, others⟩⟩
  · exact Nat.zero_le 1
  · exact Nat.le_refl 1
  · have hmem : ∀ k ∈ i :: j :: others, k ∈ items ∧ p k = true := by
      intro k hk
      rw [← hfound] at hk
      exact List.mem_filter.mp hk
    obtain ⟨hi, hpi⟩ := hmem i List.mem_cons_self
    obtain ⟨hj, hpj⟩ := hmem j (List.mem_cons_of_mem _ List.mem_cons_self)
    rw [hfound, hone i hi j hj hpi hpj] at hfilter
    exact absurd List.mem_cons_self (List.nodup_cons.mp hfilter).1

/-- Lists of bounded length are together as long as that, each of them, at most. -/
theorem length_flatMap_le {ι α : Type} {f : ι → List α} {items : List ι} {size : Nat}
    (h : ∀ i ∈ items, (f i).length ≤ size) : (items.flatMap f).length ≤ items.length * size := by
  induction items with
  | nil => exact Nat.zero_le _
  | cons i items ih =>
    have hfirst := h i List.mem_cons_self
    have hrest := ih fun j hj => h j (List.mem_cons_of_mem _ hj)
    rw [List.flatMap_cons, List.length_append, List.length_cons, Nat.succ_mul]
    omega

end Custodian
