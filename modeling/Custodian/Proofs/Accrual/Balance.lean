import Custodian.Proofs.Accrual.Adjacent
import Mathlib.Algebra.BigOperators.Group.Finset.Piecewise

/-!
# Balances as sums

Where no sum has to be rounded (`Commits.SumsExactly`) a balance is what the account has received,
less what it has sent (`SumsExactly.balanceFrom`). What one account sends another one receives, so
over all accounts of some transfers the balances add up to nothing (`Commits.sum_moved`).
-/

namespace Custodian

/-- A transfer moves nothing for an account that takes no part in it. -/
theorem Transfer.movement_of_not_touches {t : Transfer} {account : String}
    (h : t.touches account = false) : t.movement account = 0 := by
  unfold touches at h
  rw [Bool.or_eq_false_iff, beq_eq_false_iff_ne, beq_eq_false_iff_ne] at h
  unfold movement
  rw [if_neg h.1, if_neg h.2, sub_zero]

namespace Commits

variable {ts : Commits} {t : Transfer} {account : String} {accounts : List String}
  {opening held : Decimal}

/-! ## Exact sums -/

/-- No sum that several transfers form from an opening balance on has to be rounded. -/
def SumsExactly (account : String) (opening : Decimal) : Commits → Prop
  | [] => True
  | t :: ts => opening.AddsExactly (t.deltaFor account) ∧
    ∀ held ∈ opening.add? (t.deltaFor account), SumsExactly account held ts

instance decidableSumsExactly : ∀ (ts : Commits) (opening : Decimal),
    Decidable (ts.SumsExactly account opening)
  | [], _ => inferInstanceAs (Decidable True)
  | t :: ts, opening =>
    have := decidableSumsExactly ts
    inferInstanceAs (Decidable (opening.AddsExactly (t.deltaFor account) ∧
      ∀ held ∈ opening.add? (t.deltaFor account), SumsExactly account held ts))

/-- Exact sums come to the opening balance and what has been moved. -/
theorem SumsExactly.balanceFrom (h : ts.SumsExactly account opening) :
    ∃ held, ts.balanceFrom account opening = some held ∧
      held.value = opening.value + ts.moved account := by
  induction ts generalizing opening with
  | nil => exact ⟨opening, rfl, by rw [moved_nil, add_zero]⟩
  | cons t ts ih =>
    obtain ⟨hadds, hrest⟩ := h
    obtain ⟨next, hnext, hvalue⟩ := hadds.add?
    obtain ⟨held, hheld, hheldvalue⟩ := ih (hrest next hnext)
    refine ⟨held, ?_, ?_⟩
    · rw [balanceFrom_cons, hnext]
      exact hheld
    · rw [hheldvalue, hvalue, Transfer.value_deltaFor, moved_cons, add_assoc]

/-! ## Received and sent -/

/-- The transfers of an asset that count before an instant, whoever takes part in them. -/
def counting (ts : Commits) (asset : String) (stop : Int64) : Commits :=
  (ts.ofAsset asset).filter fun t => t.countsBefore stop

/-- What an account receives from others. -/
def received (ts : Commits) (account : String) : ℚ :=
  (ts.map fun t =>
    if t.destination = account ∧ t.source ≠ account then t.amount.value else 0).sum

/-- What an account sends to others. -/
def sent (ts : Commits) (account : String) : ℚ :=
  (ts.map fun t =>
    if t.source = account ∧ t.destination ≠ account then t.amount.value else 0).sum

/-- A transfer from an account to itself moves nothing. -/
theorem moved_eq_received_sub_sent (ts : Commits) (account : String) :
    ts.moved account = ts.received account - ts.sent account := by
  induction ts with
  | nil => exact (sub_zero _).symm
  | cons t ts ih =>
    unfold received sent at ih ⊢
    rw [moved_cons, ih, List.map_cons, List.map_cons, List.sum_cons, List.sum_cons,
      ← sub_add_sub_comm]
    congr 1
    unfold Transfer.movement
    by_cases hsource : t.source = account
    · by_cases hdestination : t.destination = account
      · simp [hsource, hdestination]
      · simp [hsource, hdestination]
    · by_cases hdestination : t.destination = account
      · simp [hsource, hdestination]
      · simp [hsource, hdestination]

theorem moved_filter_touches (ts : Commits) (account : String) :
    moved (ts.filter fun t => t.touches account) account = ts.moved account := by
  induction ts with
  | nil => rfl
  | cons t ts ih =>
    rw [List.filter_cons, moved_cons]
    split
    · rw [moved_cons, ih]
    · rename_i h
      rw [ih, Transfer.movement_of_not_touches (Bool.not_eq_true _ ▸ h), zero_add]

/-- An account sees those of the counting transfers that it takes part in. -/
theorem moved_ofAccount (ts : Commits) (account asset : String) (stop : Int64) :
    ((ts.ofAccount account stop).ofAsset asset).moved account =
      (ts.counting asset stop).moved account := by
  have hfilter : (ts.ofAccount account stop).ofAsset asset =
      (ts.counting asset stop).filter fun t => t.touches account := by
    unfold ofAccount counting ofAsset
    rw [List.filter_filter, List.filter_filter, List.filter_filter]
    refine List.filter_congr fun t _ => ?_
    rw [Bool.and_comm, Bool.and_right_comm]
  rw [hfilter, moved_filter_touches]

/-- What is moved by a transfer between some accounts adds up to nothing over them. -/
theorem sum_movement (hnodup : accounts.Nodup) (hsource : t.source ∈ accounts)
    (hdestination : t.destination ∈ accounts) :
    (accounts.map fun account => t.movement account).sum = 0 := by
  rw [← List.sum_toFinset _ hnodup]
  unfold Transfer.movement
  rw [Finset.sum_sub_distrib, Finset.sum_ite_eq, Finset.sum_ite_eq,
    if_pos (List.mem_toFinset.mpr hdestination), if_pos (List.mem_toFinset.mpr hsource), sub_self]

/-- What is moved between some accounts adds up to nothing over all of them. -/
theorem sum_moved (hnodup : accounts.Nodup)
    (hboth : ∀ t ∈ ts, t.source ∈ accounts ∧ t.destination ∈ accounts) :
    (accounts.map fun account => ts.moved account).sum = 0 := by
  induction ts with
  | nil =>
    simp only [moved_nil, List.map_const', List.sum_replicate, nsmul_zero]
  | cons t ts ih =>
    obtain ⟨hsource, hdestination⟩ := hboth t List.mem_cons_self
    simp only [moved_cons]
    rw [List.sum_map_add, sum_movement hnodup hsource hdestination,
      ih fun t' ht' => hboth t' (List.mem_cons_of_mem _ ht'), add_zero]

end Commits

end Custodian
