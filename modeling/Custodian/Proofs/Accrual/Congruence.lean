import Custodian.Proofs.Accrual.Balance
import Custodian.Proofs.Decimal.Rounding
import Custodian.Snapshot.Basic

/-!
# Only values count

One number has decimals of several scales, and which of them a sum comes to depends on the order of
its terms. Two facts make that order harmless where nothing is rounded:

* contexts of equal values settle to contexts of equal values, or neither can be settled
  (`Context.Same.settle`);
* transfers that add up exactly come to balances of one value in any order
  (`Commits.SumsExactly.value_eq`).

An instant cuts a time-ordered stream in two (`Commits.upTo_append_beyond`).
-/

namespace Custodian

/-! ## Equal values -/

/-- Decimals of one number. -/
def Decimal.Same (a b : Decimal) : Prop := a.value = b.value

/-- Totals of equal values. -/
structure AssetCustody.Same (c c' : AssetCustody) : Prop where
  fee : c.fee.value = c'.fee.value
  auc : c.assetsUnderCustody.value = c'.assetsUnderCustody.value

/-- Contexts with one control point and equal values. -/
structure Context.Same (c c' : Context) : Prop where
  fee : c.fee.value = c'.fee.value
  auc : c.auc.value = c'.auc.value
  control : c.control = c'.control
  balance : c.balance.value = c'.balance.value

/-- Snapshots of one asset at one control point, with equal values. -/
structure Snapshot.Same (s s' : Snapshot) : Prop where
  account : s.account = s'.account
  asset : s.asset = s'.asset
  control : s.control = s'.control
  fee : s.fee.value = s'.fee.value
  balance : s.balance.value = s'.balance.value

theorem rel_bind {α β γ δ : Type} {r : α → β → Prop} {s : γ → δ → Prop} {x : Option α}
    {y : Option β} {f : α → Option γ} {g : β → Option δ} (h : Option.Rel r x y)
    (hnext : ∀ a b, r a b → Option.Rel s (f a) (g b)) : Option.Rel s (x.bind f) (y.bind g) := by
  cases h with
  | some hab => exact hnext _ _ hab
  | none => exact .none

/-- Of two computations with related results both succeed or both fail. -/
theorem ok_or_error_of_rel {ε α β : Type} {r : α → β → Prop} {x : Except ε α} {y : Except ε β}
    (h : Option.Rel r x.toOption y.toOption) :
    (∃ a b, x = .ok a ∧ y = .ok b ∧ r a b) ∨ ∃ e e', x = .error e ∧ y = .error e' := by
  rcases x with e | a
  · rcases y with e' | b
    · exact .inr ⟨e, e', rfl, rfl⟩
    · cases h
  · rcases y with e' | b
    · cases h
    · cases h with
      | some hab => exact .inl ⟨a, b, rfl, rfl, hab⟩

namespace Decimal

variable {a a' b b' : Decimal}

theorem rel_of_map_value {x y : Option Decimal} (h : x.map value = y.map value) :
    Option.Rel Same x y := by
  rcases x with _ | a
  · rcases y with _ | b
    · exact .none
    · cases h
  · rcases y with _ | b
    · cases h
    · exact .some (Option.some.inj h)

theorem Same.add? (ha : a.Same a') (hb : b.Same b') : Option.Rel Same (a.add? b) (a'.add? b') :=
  rel_of_map_value (map_value_add?_congr ha hb)

theorem Same.mul? (ha : a.Same a') (hb : b.Same b') : Option.Rel Same (a.mul? b) (a'.mul? b') :=
  rel_of_map_value (map_value_mul?_congr ha hb)

end Decimal

namespace Context.Same

variable {c c' : Context} {window : Window} {settleAt total elapsed period : Int64}
  {fraction held held' : Decimal}

theorem accrueAuc (h : c.Same c') (hheld : held.Same held') :
    Option.Rel Same (c.accrueAuc total elapsed held).toOption
      (c'.accrueAuc total elapsed held').toOption := by
  unfold Context.accrueAuc
  split
  · exact .none
  · simp only [toOption_bind, toOption_timeShare, toOption_orOverflow]
    rcases Decimal.ratio? elapsed.toInt.toNat total.toInt.toNat with _ | share
    · exact .none
    · rw [Option.bind_some, Option.bind_some]
      refine rel_bind (hheld.mul? rfl) fun accrued accrued' haccrued => ?_
      refine rel_bind (Decimal.Same.add? h.auc haccrued) fun auc auc' hauc => ?_
      exact .some ⟨h.fee, hauc, h.control, h.balance⟩

theorem accrueFeeOver (h : c.Same c') :
    Option.Rel Same (c.accrueFeeOver elapsed fraction period).toOption
      (c'.accrueFeeOver elapsed fraction period).toOption := by
  unfold Context.accrueFeeOver
  simp only [toOption_bind, toOption_timeShare, toOption_orOverflow]
  rcases Decimal.ratio? elapsed.toInt.toNat period.toInt.toNat with _ | share
  · exact .none
  · rw [Option.bind_some, Option.bind_some]
    refine rel_bind (rel_bind (Decimal.Same.mul? rfl rfl) fun rate rate' hrate =>
      hrate.mul? h.balance) fun charged charged' hcharged => ?_
    refine rel_bind (Decimal.Same.add? h.fee hcharged) fun fee fee' hfee => ?_
    exact .some ⟨hfee, h.auc, h.control, h.balance⟩

theorem accrueFee (h : c.Same c') :
    Option.Rel Same (c.accrueFee settleAt fraction period).toOption
      (c'.accrueFee settleAt fraction period).toOption := by
  unfold Context.accrueFee elapsedTo
  rw [h.control]
  rcases checkFraction fraction with e | ⟨⟩
  · exact .none
  show Option.Rel Same (ite _ _ _ : Except Error Context).toOption
    (ite _ _ _ : Except Error Context).toOption
  split
  · exact .none
  rcases Time.minus? settleAt c'.control with _ | elapsed
  · exact .none
  show Option.Rel Same (ite _ _ _ : Except Error Context).toOption
    (ite _ _ _ : Except Error Context).toOption
  split
  · exact .none
  · exact h.accrueFeeOver

/-- Contexts of equal values settle to contexts of equal values, or neither can be settled. -/
theorem settle (h : c.Same c') :
    Option.Rel Same (c.settle window settleAt fraction period).toOption
      (c'.settle window settleAt fraction period).toOption := by
  unfold Context.settle elapsedTo
  rw [h.control]
  split
  · exact .some h
  rcases Time.minus? settleAt c'.control with _ | elapsed
  · exact .none
  rcases window.length with e | length
  · exact .none
  show Option.Rel Same (c.accrueAuc length elapsed c.balance >>= _ : Except Error Context).toOption
    (c'.accrueAuc length elapsed c'.balance >>= _ : Except Error Context).toOption
  rw [toOption_bind, toOption_bind]
  refine rel_bind (h.accrueAuc h.balance) fun accrued accrued' haccrued => ?_
  rw [toOption_bind, toOption_bind]
  refine rel_bind haccrued.accrueFee fun charged charged' hcharged => ?_
  exact .some ⟨hcharged.fee, hcharged.auc, rfl, hcharged.balance⟩

theorem snapshot (h : c.Same c') (account asset : String) :
    (c.snapshot account asset).Same (c'.snapshot account asset) :=
  ⟨rfl, rfl, h.control, h.fee, h.balance⟩

end Context.Same

/-! ## Streams cut at an instant -/

namespace Commits

variable {ts ts' : Commits} {t : Transfer} {time : Int64} {account : String}
  {opening opening' held : Decimal}

/-- The transfers stamped up to an instant. -/
def upTo (ts : Commits) (time : Int64) : Commits := ts.filter fun t => t.occurredAt ≤ time

/-- The transfers stamped later. -/
def beyond (ts : Commits) (time : Int64) : Commits := ts.filter fun t => time < t.occurredAt

theorem mem_upTo : t ∈ ts.upTo time ↔ t ∈ ts ∧ t.occurredAt ≤ time := by
  rw [upTo, List.mem_filter, decide_eq_true_eq]

theorem mem_beyond : t ∈ ts.beyond time ↔ t ∈ ts ∧ time < t.occurredAt := by
  rw [beyond, List.mem_filter, decide_eq_true_eq]

/-- In a stream that is ordered by time those come first. -/
theorem upTo_append_beyond (hordered : ts.Pairwise fun a b => a.occurredAt ≤ b.occurredAt)
    (time : Int64) :
    ts.upTo time ++ ts.beyond time = ts := by
  induction ts with
  | nil => rfl
  | cons t ts ih =>
    obtain ⟨hafter, hordered⟩ := List.pairwise_cons.mp hordered
    by_cases hle : t.occurredAt ≤ time
    · have hfirst : upTo (t :: ts) time = t :: upTo ts time :=
        List.filter_cons_of_pos (decide_eq_true hle)
      have hlater : beyond (t :: ts) time = beyond ts time :=
        List.filter_cons_of_neg fun h => Int64.not_lt.mpr hle (of_decide_eq_true h)
      rw [hfirst, hlater, List.cons_append, ih hordered]
    · have hlt : ∀ t' ∈ t :: ts, time < t'.occurredAt := by
        intro t' ht'
        rcases List.mem_cons.mp ht' with rfl | ht'
        · exact Int64.not_le.mp hle
        · exact Int64.lt_of_lt_of_le (Int64.not_le.mp hle) (hafter t' ht')
      have hnone : upTo (t :: ts) time = [] := List.filter_eq_nil_iff.mpr fun t' ht' h =>
        Int64.not_le.mpr (hlt t' ht') (of_decide_eq_true h)
      have hall : beyond (t :: ts) time = t :: ts :=
        List.filter_eq_self.mpr fun t' ht' => decide_eq_true (hlt t' ht')
      rw [hnone, hall, List.nil_append]

/-! ## Sums in any order -/

theorem moved_perm (h : ts.Perm ts') : ts.moved account = ts'.moved account := (h.map _).sum_eq

/-- The first of several transfers add up exactly, and the others do so from there on. -/
theorem SumsExactly.of_append (h : (ts ++ ts').SumsExactly account opening) :
    ts.SumsExactly account opening ∧
      ∀ held, ts.balanceFrom account opening = some held → ts'.SumsExactly account held := by
  induction ts generalizing opening with
  | nil =>
    refine ⟨trivial, fun held hheld => ?_⟩
    cases hheld
    exact h
  | cons t ts ih =>
    obtain ⟨hadds, hrest⟩ := h
    refine ⟨⟨hadds, fun next hnext => (ih (hrest next hnext)).1⟩, fun held hheld => ?_⟩
    rw [balanceFrom_cons, Option.bind_eq_some_iff] at hheld
    obtain ⟨next, hnext, hheld⟩ := hheld
    exact (ih (hrest next hnext)).2 held hheld

/-- Transfers that add up exactly come to one value in any order. -/
theorem SumsExactly.value_eq (h : ts.SumsExactly account opening)
    (h' : ts'.SumsExactly account opening') (hperm : ts.Perm ts')
    (hopening : opening.value = opening'.value) :
    ∃ held held', ts.balanceFrom account opening = some held ∧
      ts'.balanceFrom account opening' = some held' ∧ held.value = held'.value := by
  obtain ⟨held, hheld, hvalue⟩ := h.balanceFrom
  obtain ⟨held', hheld', hvalue'⟩ := h'.balanceFrom
  exact ⟨held, held', hheld, hheld', by rw [hvalue, hvalue', hopening, moved_perm hperm]⟩

end Commits

end Custodian
