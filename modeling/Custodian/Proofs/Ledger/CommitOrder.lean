import Custodian.Database.Row
import Custodian.Proofs.Decimal.Sign

/-!
# The ledger in commit order

A ledger is the recorded transfers in whatever order they were recorded; `Ledger.committed`
puts them in commit order. Four things live here:

* sorting commutes with filtering and, where everything on the left comes first, with
  appending (`filter_mergeSort`, `mergeSort_append`);
* `Commits.ofAccount` and `Commits.ofAsset`, the transfers that a replay sees;
* `Commits.balanceBefore`, what an account holds just before an instant, and
  `Snapshot.Sound`, which says that a snapshot carries that balance;
* `Commits.TimeOrdered`: what was committed earlier is not stamped later.

Amounts come back from a table without signs on zeros (`Transfer.stored`), and then balances
have none either (`plain_balanceBefore`), so a balance that is stored is read back as it was.
-/

namespace Custodian

/-! ## Stable sorting -/

section Sorting

variable {α : Type} {le : α → α → Bool}

/-- Sorting with one more element in front puts it before all that are not smaller. -/
theorem mergeSort_cons_eq (trans : ∀ a b c, le a b → le b c → le a c)
    (total : ∀ a b, le a b || le b a) (a : α) (l : List α) :
    (a :: l).mergeSort le =
      (l.mergeSort le).filter (fun b => !le a b) ++ a :: (l.mergeSort le).filter (le a) := by
  obtain ⟨l₁, l₂, h, hl, h₁⟩ := List.mergeSort_cons trans total a l
  have hsorted := List.pairwise_mergeSort trans total (a :: l)
  rw [h, List.pairwise_append, List.pairwise_cons] at hsorted
  have h₂ : ∀ b ∈ l₂, le a b = true := hsorted.2.1.1
  have hleft : (l₁ ++ l₂).filter (fun b => !le a b) = l₁ := by
    rw [List.filter_append, List.filter_eq_self.mpr h₁, List.filter_eq_nil_iff.mpr,
      List.append_nil]
    intro b hb
    rw [h₂ b hb]
    decide
  have hright : (l₁ ++ l₂).filter (le a) = l₂ := by
    rw [List.filter_append, List.filter_eq_self.mpr h₂, List.filter_eq_nil_iff.mpr,
      List.nil_append]
    intro b hb
    rw [Bool.not_eq_true, ← Bool.not_eq_true']
    exact h₁ b hb
  rw [h, hl, hleft, hright]

theorem filter_mergeSort (trans : ∀ a b c, le a b → le b c → le a c)
    (total : ∀ a b, le a b || le b a) (p : α → Bool) (l : List α) :
    (l.mergeSort le).filter p = (l.filter p).mergeSort le := by
  induction l with
  | nil => rw [List.mergeSort_nil, List.filter_nil, List.mergeSort_nil]
  | cons a l ih =>
    rw [mergeSort_cons_eq trans total, List.filter_append, List.filter_cons, List.filter_cons]
    by_cases ha : p a
    · rw [if_pos ha, if_pos ha, mergeSort_cons_eq trans total, ← ih]
      rw [List.filter_filter, List.filter_filter, List.filter_filter, List.filter_filter]
      simp only [Bool.and_comm]
    · rw [if_neg ha, if_neg ha, ← ih]
      -- the two parts around `a` are still in order without it
      obtain ⟨l₁, l₂, h, hl, -⟩ := List.mergeSort_cons trans total a l
      have heq := mergeSort_cons_eq trans total a l
      rw [h] at heq
      have hfilter := congrArg (List.filter p) heq
      rw [List.filter_append, List.filter_append, List.filter_cons_of_neg ha,
        List.filter_cons_of_neg ha] at hfilter
      rw [← hfilter, ← List.filter_append, ← hl]

theorem mergeSort_append (trans : ∀ a b c, le a b → le b c → le a c)
    (total : ∀ a b, le a b || le b a) {l r : List α} (h : ∀ a ∈ l, ∀ b ∈ r, le a b = true) :
    (l ++ r).mergeSort le = l.mergeSort le ++ r.mergeSort le := by
  induction l with
  | nil => rw [List.mergeSort_nil, List.nil_append, List.nil_append]
  | cons a l ih =>
    have ha : ∀ b ∈ r.mergeSort le, le a b = true := fun b hb =>
      h a List.mem_cons_self b (List.mem_mergeSort.mp hb)
    have hnone : (r.mergeSort le).filter (fun b => !le a b) = [] := by
      rw [List.filter_eq_nil_iff]
      intro b hb
      rw [ha b hb]
      decide
    rw [List.cons_append, mergeSort_cons_eq trans total, mergeSort_cons_eq trans total,
      ih fun b hb => h b (List.mem_cons_of_mem _ hb), List.filter_append, List.filter_append,
      List.filter_eq_self.mpr ha, hnone, List.append_nil, List.append_assoc, List.cons_append]

end Sorting

/-! ## Commit order -/

namespace Position

theorem le_trans (a b c : Position) : a.le b → b.le c → a.le c := by
  simp only [le, decide_eq_true_eq]
  omega

theorem le_total (a b : Position) : a.le b || b.le a := by
  simp only [le, Bool.or_eq_true, decide_eq_true_eq]
  omega

theorem le_antisymm {a b : Position} (h : a.le b = true) (h' : b.le a = true) : a = b := by
  obtain ⟨block, transaction, index⟩ := a
  obtain ⟨block', transaction', index'⟩ := b
  simp only [le, decide_eq_true_eq] at h h'
  obtain ⟨rfl, rfl, rfl⟩ : block = block' ∧ transaction = transaction' ∧ index = index' := by
    omega
  rfl

end Position

/-- The transfer as the ledger hands it out: an amount of zero has lost its sign. -/
def Transfer.stored (t : Transfer) : Transfer := { t with amount := t.amount.unsignedZero }

/-- No change of a balance is a zero with a sign if the amount is not one. -/
theorem Transfer.plain_deltaFor {t : Transfer} (h : t.amount.Plain) (account : String) :
    (t.deltaFor account).Plain := by
  unfold Transfer.deltaFor
  split
  · split
    · exact h.cancelled
    · exact h.opposite
  · split
    · exact h
    · exact Decimal.plain_zero

/-- Recorded transfers, in the order in which they were recorded. -/
abbrev Ledger := List RecordedTransfer

/-- Transfers in commit order. -/
abbrev Commits := List Transfer

namespace Ledger

/-- The recorded transfers sorted by place. -/
def byPlace (ledger : Ledger) : Ledger :=
  ledger.mergeSort fun a b => a.position.le b.position

/-- All transfers of a ledger. -/
def committed (ledger : Ledger) : Commits := ledger.byPlace.map fun r => r.transfer.stored

theorem filter_byPlace (p : RecordedTransfer → Bool) (ledger : Ledger) :
    ledger.byPlace.filter p = byPlace (ledger.filter p) :=
  filter_mergeSort (fun a b c => Position.le_trans a.position b.position c.position)
    (fun a b => Position.le_total a.position b.position) p ledger

/-- Transfers that were recorded in commit order stay in it. -/
theorem committed_of_pairwise {ledger : Ledger}
    (h : ledger.Pairwise fun r r' => r.position.le r'.position) :
    ledger.committed = ledger.map fun r => r.transfer.stored := by
  unfold committed byPlace
  rw [List.mergeSort_of_pairwise h]

/-- Amounts are handed out without signs on zeros. -/
theorem plain_of_mem_committed {ledger : Ledger} {t : Transfer} (h : t ∈ ledger.committed) :
    t.amount.Plain := by
  obtain ⟨r, -, rfl⟩ := List.mem_map.mp h
  exact Decimal.plain_unsignedZero _

/-- What comes after everything recorded before is committed after it. -/
theorem committed_append {ledger batch : Ledger}
    (h : ∀ r ∈ ledger, ∀ r' ∈ batch, r.position.le r'.position = true) :
    committed (ledger ++ batch) = ledger.committed ++ batch.committed := by
  unfold committed byPlace
  rw [mergeSort_append (fun a b c => Position.le_trans a.position b.position c.position)
    (fun a b => Position.le_total a.position b.position) h, List.map_append]

end Ledger

namespace Commits

variable {ts ts' : Commits} {t : Transfer} {account asset : String} {time stop : Int64}

/-! ## The transfers that a replay sees -/

/-- The transfers that count for what an account holds before an instant. -/
def ofAccount (ts : Commits) (account : String) (stop : Int64) : Commits :=
  ts.filter fun t => t.touches account && t.countsBefore stop

/-- The transfers of an asset. -/
def ofAsset (ts : Commits) (asset : String) : Commits := ts.filter fun t => t.asset == asset

theorem mem_ofAccount :
    t ∈ ts.ofAccount account stop ↔
      t ∈ ts ∧ t.touches account = true ∧ t.rejected = false ∧ t.occurredAt < stop := by
  rw [ofAccount, List.mem_filter, Bool.and_eq_true, Transfer.countsBefore, Bool.and_eq_true,
    Bool.not_eq_true', decide_eq_true_eq]

@[simp] theorem ofAccount_append (ts ts' : Commits) (account : String) (stop : Int64) :
    ofAccount (ts ++ ts') account stop = ts.ofAccount account stop ++ ts'.ofAccount account stop :=
  List.filter_append ..

theorem mem_ofAsset : t ∈ ts.ofAsset asset ↔ t ∈ ts ∧ t.asset = asset := by
  rw [ofAsset, List.mem_filter, beq_iff_eq]

@[simp] theorem ofAsset_nil : ofAsset [] asset = [] := rfl

@[simp] theorem ofAsset_append (ts ts' : Commits) (asset : String) :
    ofAsset (ts ++ ts') asset = ts.ofAsset asset ++ ts'.ofAsset asset := List.filter_append ..

theorem ofAsset_cons (t : Transfer) (ts : Commits) (asset : String) :
    ofAsset (t :: ts) asset =
      if t.asset = asset then t :: ts.ofAsset asset else ts.ofAsset asset := by
  rw [ofAsset, List.filter_cons, ← ofAsset]
  by_cases h : t.asset = asset
  · rw [if_pos h, if_pos (beq_iff_eq.mpr h)]
  · rw [if_neg h, if_neg (mt beq_iff_eq.mp h)]

theorem ofAsset_eq_nil_iff : ts.ofAsset asset = [] ↔ asset ∉ ts.map Transfer.asset := by
  rw [List.eq_nil_iff_forall_not_mem, List.mem_map]
  constructor
  · rintro h ⟨t, ht, hasset⟩
    exact h t (mem_ofAsset.mpr ⟨ht, hasset⟩)
  · intro h t ht
    exact h ⟨t, mem_ofAsset.mp ht⟩

/-- The transfers from before an instant. -/
def before (ts : Commits) (time : Int64) : Commits := ts.filter fun t => t.occurredAt < time

/-- The transfers that count for an instant are those of any later one from before it. -/
theorem before_ofAccount (h : time ≤ stop) :
    (ts.ofAccount account stop).before time = ts.ofAccount account time := by
  unfold before ofAccount
  rw [List.filter_filter]
  refine List.filter_congr fun t _ => ?_
  rw [Bool.eq_iff_iff]
  simp only [Transfer.countsBefore, Bool.and_eq_true, decide_eq_true_eq, Bool.not_eq_true']
  constructor
  · rintro ⟨hlt, htouch, hrej, -⟩
    exact ⟨htouch, hrej, hlt⟩
  · rintro ⟨htouch, hrej, hlt⟩
    exact ⟨hlt, htouch, hrej, Int64.lt_of_lt_of_le hlt h⟩

theorem before_ofAsset : (ts.ofAsset asset).before time = (ts.before time).ofAsset asset := by
  unfold before ofAsset
  rw [List.filter_filter, List.filter_filter]
  exact List.filter_congr fun t _ => Bool.and_comm _ _

/-- Where what is on the left is earlier than an instant and what is on the right is not, the
transfers from before the instant are those on the left. -/
theorem before_append (h : ∀ t ∈ ts, t.occurredAt < time) (h' : ∀ t ∈ ts', time ≤ t.occurredAt) :
    before (ts ++ ts') time = ts := by
  unfold before
  rw [List.filter_append, List.filter_eq_self.mpr, List.filter_eq_nil_iff.mpr, List.append_nil]
  · intro t ht
    rw [decide_eq_true_eq, Int64.not_lt]
    exact h' t ht
  · intro t ht
    rw [decide_eq_true_eq]
    exact h t ht

/-! ## Order of the stamps -/

/-- Of two transfers that count, the one committed first is not stamped later. -/
def TimeOrdered (ts : Commits) : Prop :=
  ts.Pairwise fun a b =>
    a.rejected = false → b.rejected = false → a.occurredAt ≤ b.occurredAt

instance (ts : Commits) : Decidable ts.TimeOrdered := by unfold TimeOrdered; infer_instance

/-- The stamps of an account's transfers ascend. -/
theorem TimeOrdered.ofAccount (h : ts.TimeOrdered) (account : String) (stop : Int64) :
    (ts.ofAccount account stop).Pairwise fun a b => a.occurredAt ≤ b.occurredAt := by
  rw [Commits.ofAccount, List.pairwise_filter]
  refine List.Pairwise.imp ?_ h
  intro a b hab ha hb
  simp only [Transfer.countsBefore, Bool.and_eq_true, Bool.not_eq_true'] at ha hb
  exact hab ha.2.1 hb.2.1

/-! ## Balances -/

/-- What an account that has an opening balance holds after the given transfers, unless a sum
overflows. -/
def balanceFrom (ts : Commits) (account : String) (opening : Decimal) : Option Decimal :=
  ts.foldlM (fun held t => held.add? (t.deltaFor account)) opening

theorem balanceFrom_cons {opening : Decimal} :
    balanceFrom (t :: ts) account opening =
      (opening.add? (t.deltaFor account)).bind fun held => ts.balanceFrom account held :=
  List.foldlM_cons

theorem balanceFrom_append {opening : Decimal} :
    balanceFrom (ts ++ ts') account opening =
      (ts.balanceFrom account opening).bind fun held => ts'.balanceFrom account held :=
  List.foldlM_append

/-- What an account holds after the given transfers, nothing being held at first. -/
def balance (ts : Commits) (account : String) : Option Decimal := ts.balanceFrom account .zero

/-- What an account holds of an asset just before an instant. -/
def balanceBefore (ts : Commits) (account asset : String) (time : Int64) : Option Decimal :=
  ((ts.ofAccount account time).ofAsset asset).balance account

/-- What is committed later comes on top. -/
theorem balanceBefore_append :
    balanceBefore (ts ++ ts') account asset time =
      (ts.balanceBefore account asset time).bind
        (((ts'.ofAccount account time).ofAsset asset).balanceFrom account) := by
  unfold balanceBefore balance
  rw [ofAccount_append, ofAsset_append, balanceFrom_append]

/-- A balance of plain amounts is plain. -/
theorem plain_balance (h : ∀ t ∈ ts, t.amount.Plain) {held : Decimal}
    (hb : ts.balance account = some held) : held.Plain := by
  unfold balance at hb
  have hstart := Decimal.plain_zero
  generalize Decimal.zero = start at hb hstart
  induction ts generalizing start with
  | nil =>
    cases hb
    exact hstart
  | cons t ts ih =>
    rw [balanceFrom_cons, Option.bind_eq_some_iff] at hb
    obtain ⟨next, hnext, hb⟩ := hb
    have hdelta := Transfer.plain_deltaFor (h t List.mem_cons_self) account
    exact ih (fun t' ht' => h t' (List.mem_cons_of_mem _ ht')) next hb (hstart.add? hdelta hnext)

theorem plain_balanceBefore (h : ∀ t ∈ ts, t.amount.Plain) {held : Decimal}
    (hb : ts.balanceBefore account asset time = some held) : held.Plain :=
  plain_balance (fun t ht => h t (mem_ofAccount.mp (mem_ofAsset.mp ht).1).1) hb

end Commits

/-- The balance of a snapshot is what the account holds just before the control point. -/
def Snapshot.Sound (ts : Commits) (s : Snapshot) : Prop :=
  ts.balanceBefore s.account s.asset s.control = some s.balance

end Custodian
