import Custodian.Database.Row

/-!
# The text of a place

The text of a place in the ledger is the id of the transfer there. Numbers are written without a
colon, so the text is cut at its colons in one way only, and names no other place
(`Position.text_injective`).
-/

namespace Custodian

namespace Position

theorem isDigit_of_mem_repr {n : Nat} {c : Char} (h : c ∈ n.repr.toList) : c.isDigit = true := by
  rw [Nat.repr_eq_ofList_toDigits, String.toList_ofList] at h
  exact Nat.isDigit_of_mem_toDigits (by decide) (by decide) h

theorem eq_of_repr_eq {m n : Nat} (h : m.repr.toList = n.repr.toList) : m = n := by
  rw [Nat.repr_eq_ofList_toDigits, Nat.repr_eq_ofList_toDigits, String.toList_ofList,
    String.toList_ofList] at h
  have hvalue := congrArg (Nat.ofDigitChars 10 · 0) h
  simpa only [Nat.ofDigitChars_ten_toDigits] using hvalue

/-- An integer is written as digits, with a sign before them if it is negative. -/
theorem toList_repr (n : Int) :
    n.repr.toList = if 0 ≤ n then n.toNat.repr.toList else '-' :: (-n).toNat.repr.toList := by
  rw [Int.repr_eq_if]
  split
  · rfl
  · rw [String.toList_append]
    rfl

/-- No two integers are written the same. -/
theorem repr_injective {m n : Int} (h : m.repr.toList = n.repr.toList) : m = n := by
  have hsign : ∀ {k : Nat} {digits : List Char}, k.repr.toList ≠ '-' :: digits := by
    intro k digits heq
    have hdigit : '-'.isDigit = true := isDigit_of_mem_repr (heq ▸ List.mem_cons_self)
    exact absurd hdigit (by decide)
  rw [toList_repr, toList_repr] at h
  -- no digits begin with a sign, so both numbers have one or neither has
  by_cases hm : 0 ≤ m
  · by_cases hn : 0 ≤ n
    · rw [if_pos hm, if_pos hn] at h
      have hsame := eq_of_repr_eq h
      omega
    · rw [if_pos hm, if_neg hn] at h
      exact absurd h hsign
  · by_cases hn : 0 ≤ n
    · rw [if_neg hm, if_pos hn] at h
      exact absurd h.symm hsign
    · rw [if_neg hm, if_neg hn] at h
      have hsame := eq_of_repr_eq (List.cons.inj h).2
      omega

/-- An integer is written without a colon. -/
theorem colon_notMem_repr (n : Int) : ':' ∉ n.repr.toList := by
  have hdigits : ∀ k : Nat, ':' ∉ k.repr.toList := by
    intro k hmem
    exact absurd (isDigit_of_mem_repr hmem) (by decide)
  rw [toList_repr]
  split
  · exact hdigits _
  · intro hmem
    rcases List.mem_cons.mp hmem with hsign | hmem
    · exact absurd hsign (by decide)
    · exact hdigits _ hmem

/-- A list is cut in one way only at the first of its separators. -/
theorem eq_of_append_cons_eq {α : Type} {sep : α} {xs xs' ys ys' : List α} (h : sep ∉ xs)
    (h' : sep ∉ xs') (heq : xs ++ sep :: ys = xs' ++ sep :: ys') : xs = xs' ∧ ys = ys' := by
  induction xs generalizing xs' with
  | nil =>
    cases xs' with
    | nil => exact ⟨rfl, (List.cons.inj heq).2⟩
    | cons x' xs' => exact absurd ((List.cons.inj heq).1 ▸ List.mem_cons_self) h'
  | cons x xs ih =>
    cases xs' with
    | nil => exact absurd ((List.cons.inj heq).1 ▸ List.mem_cons_self) h
    | cons x' xs' =>
      obtain ⟨rfl, hrest⟩ := List.cons.inj heq
      obtain ⟨rfl, hys⟩ := ih (fun hmem => h (List.mem_cons_of_mem x hmem))
        (fun hmem => h' (List.mem_cons_of_mem x hmem)) hrest
      exact ⟨rfl, hys⟩

variable {p q : Position}

theorem toList_text (p : Position) :
    p.text.toList = p.block.repr.toList ++
      ':' :: (p.transaction.repr.toList ++ ':' :: p.index.repr.toList) := by
  unfold text
  simp [toString]

/-- No two places have one text. -/
theorem text_injective (h : p.text = q.text) : p = q := by
  have hlist := congrArg String.toList h
  rw [toList_text, toList_text] at hlist
  obtain ⟨hblock, hrest⟩ :=
    eq_of_append_cons_eq (colon_notMem_repr _) (colon_notMem_repr _) hlist
  obtain ⟨htransaction, hindex⟩ :=
    eq_of_append_cons_eq (colon_notMem_repr _) (colon_notMem_repr _) hrest
  obtain ⟨block, transaction, index⟩ := p
  cases repr_injective hblock
  cases repr_injective htransaction
  cases repr_injective hindex
  rfl

end Position

end Custodian
