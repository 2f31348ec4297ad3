import Custodian.Database.Change
import Custodian.Proofs.Firsts

/-!
# Rows that are passed over

Rows of records are inserted one by one, and a row is passed over if its table has one of its keys
already. Where the keys of rows come to one key of the records (`Tables.KeyedBy`), the rows of the
first record of each key are kept (`Tables.KeyedBy.insertNew_eq`).
-/

namespace Custodian.Tables

variable {α β κ : Type} [DecidableEq κ] {keys : List ((β → β → Bool) × Error)} {toRow : α → β}
  {key : α → κ}

/-- A table refuses the row of a record exactly if there is a row of a record with its key. -/
structure KeyedBy (keys : List ((β → β → Bool) × Error)) (toRow : α → β) (key : α → κ) : Prop where
  taken : ∀ (kept : List α) (a : α), kept.any (fun b => key b == key a) = true →
    ∃ e, insertInto (kept.map toRow) (toRow a) keys = .error e
  free : ∀ (kept : List α) (a : α), kept.any (fun b => key b == key a) = false →
    insertInto (kept.map toRow) (toRow a) keys = .ok ((kept ++ [a]).map toRow)

/-- Of each key the row of the first record is kept, and the new ones are counted. -/
theorem KeyedBy.insertNew_eq (h : KeyedBy keys toRow key) (kept batch : List α) :
    insertNew keys (kept.map toRow) (batch.map toRow) =
      ((keepFirst key kept batch).length - kept.length, (keepFirst key kept batch).map toRow) := by
  -- by induction on the batch, whatever is kept by then
  induction batch generalizing kept with
  | nil =>
    rw [keepFirst_nil, Nat.sub_self]
    rfl
  | cons a batch ih =>
    rw [List.map_cons, insertNew, keepFirst_cons]
    by_cases htaken : kept.any (fun b => key b == key a) = true
    · obtain ⟨e, hrefused⟩ := h.taken kept a htaken
      rw [hrefused, if_pos htaken]
      exact ih kept
    · have hprefix : kept ++ [a] <+: keepFirst key (kept ++ [a]) batch := prefix_keepFirst _ _
      have hlonger := hprefix.length_le
      rw [List.length_append, List.length_singleton] at hlonger
      rw [h.free kept a (Bool.eq_false_iff.mpr htaken), if_neg htaken]
      simp only [ih (kept ++ [a]), List.length_append, List.length_singleton]
      refine Prod.ext ?_ rfl
      show _ - (kept.length + 1) + 1 = _ - kept.length
      omega

end Custodian.Tables
