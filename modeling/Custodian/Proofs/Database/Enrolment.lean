import Custodian.Proofs.Database.Accounts
import Custodian.Proofs.Replay.Failures

/-!
# Accounts are recorded while pages are asked for

Stores in which batches of accounts are recorded whenever a page of accounts is counted or read
(`Enrolment.stores`). Accounts are only added, so the rank of an account in the listing only grows
from page to page; an account that was recorded beforehand stands on the page that its rank then
falls on (`Enrolment.count_onPage`). Questions other than for accounts are answered as they always
are (`Enrolment.answer_stores`).
-/

namespace Custodian

/-- Batches of accounts that are recorded during a statement: before the accounts of a page are
counted, and before those on the page are read. Nothing else in a report asks for accounts, so a
batch that comes while accounts are walked over is one before the next page. -/
structure Enrolment where
  before : Nat → List (List Account)
  between : Nat → List (List Account)

namespace Enrolment

variable (i : Enrolment) (recorded : List Account)

/-- The accounts that are recorded when those on a page are read. -/
def read : Nat → List Account
  | 0 => recorded
  | n + 1 =>
    (i.between (n + 1)).foldl Account.enrolled ((i.before (n + 1)).foldl Account.enrolled (read n))

/-- The accounts that are recorded when they are counted for a page. -/
def counted (n : Nat) : List Account :=
  (i.before n).foldl Account.enrolled (i.read recorded (n - 1))

/-- A page of the accounts, with batches before the count and before the reading. -/
def listAccounts (domain : Option String) (page : PageRequest) :
    StateM Database (Except Error (Listing Account)) := fun db =>
  let (_, counted) := (Database.recordBatches (i.before page.number)).run db
  let (_, read) := (Database.recordBatches (i.between page.number)).run counted
  (counted.tables.listAccountsAcross read.tables domain page, read)

/-- The stores over a database in which batches are recorded. -/
def stores : Stores Database := { Database.stores with accounts := i.listAccounts }

/-- Nothing is recorded. -/
def quiet : Enrolment := ⟨fun _ => [], fun _ => []⟩

/-- Then the stores are those over the database. -/
theorem stores_quiet : quiet.stores = Database.stores := rfl

variable {i recorded} {db : Database} {domain : Option String} {page : PageRequest} {a : Account}

/-- The accounts in scope when they are counted for a page. -/
def scope (i : Enrolment) (recorded : List Account) (domain : Option String) (n : Nat) :
    List Account := Account.listed (i.counted recorded n) domain

/-- The accounts that stand on a page when it is read. -/
def onPage (i : Enrolment) (recorded : List Account) (domain : Option String) (size n : Nat) :
    List Account := PageRequest.slice ⟨n, size⟩ (Account.listed (i.read recorded n) domain)

/-! ## What is recorded when -/

theorem read_of_pos {n : Nat} (hn : 0 < n) :
    i.read recorded n = (i.between n).foldl Account.enrolled (i.counted recorded n) := by
  obtain ⟨m, rfl⟩ : ∃ m, n = m + 1 := ⟨n - 1, by omega⟩
  rfl

theorem prefix_foldl_enrolled (batches : List (List Account)) (recorded : List Account) :
    recorded <+: batches.foldl Account.enrolled recorded := by
  induction batches generalizing recorded with
  | nil => exact List.prefix_refl _
  | cons batch batches ih =>
    exact (Account.prefix_enrolled recorded batch).trans (ih (Account.enrolled recorded batch))

theorem prefix_counted (n : Nat) : i.read recorded (n - 1) <+: i.counted recorded n :=
  prefix_foldl_enrolled _ _

theorem counted_prefix_read {n : Nat} (hn : 0 < n) :
    i.counted recorded n <+: i.read recorded n := by
  rw [read_of_pos hn]
  exact prefix_foldl_enrolled _ _

theorem read_prefix_read {n m : Nat} (h : n ≤ m) : i.read recorded n <+: i.read recorded m := by
  induction h with
  | refl => exact List.prefix_refl _
  | @step m _ ih =>
    have hcounted : i.read recorded m <+: i.counted recorded (m + 1) := prefix_counted (m + 1)
    exact ih.trans (hcounted.trans (counted_prefix_read (Nat.succ_pos m)))

theorem nodup_foldl_enrolled (batches : List (List Account)) {recorded : List Account}
    (hids : (recorded.map Account.id).Nodup) :
    ((batches.foldl Account.enrolled recorded).map Account.id).Nodup := by
  induction batches generalizing recorded with
  | nil => exact hids
  | cons batch batches ih => exact ih (Account.nodup_enrolled hids)

theorem nodup_read (hids : (recorded.map Account.id).Nodup) (n : Nat) :
    ((i.read recorded n).map Account.id).Nodup := by
  induction n with
  | zero => exact hids
  | succ n ih => exact nodup_foldl_enrolled _ (nodup_foldl_enrolled _ ih)

theorem nodup_counted (hids : (recorded.map Account.id).Nodup) (n : Nat) :
    ((i.counted recorded n).map Account.id).Nodup :=
  nodup_foldl_enrolled _ (nodup_read hids (n - 1))

/-! ## What stands where -/

theorem length_scope (n : Nat) :
    (i.scope recorded domain n).length =
      ((i.counted recorded n).filter (Account.isOf domain)).length :=
  Account.length_listed _ _

theorem onPage_eq {sorted : List Account} (hids : (recorded.map Account.id).Nodup) (size n : Nat)
    (hsorted : sorted.Pairwise fun a b => a.id < b.id)
    (hperm : sorted.Perm ((i.read recorded n).filter (Account.isOf domain))) :
    i.onPage recorded domain size n = PageRequest.slice ⟨n, size⟩ sorted :=
  congrArg (PageRequest.slice ⟨n, size⟩)
    (Account.listed_eq (nodup_read hids n) hsorted hperm)

/-- The rank of an account, page by page as they are read. -/
def rankOn (i : Enrolment) (recorded : List Account) (domain : Option String) (a : Account)
    (n : Nat) : Nat := Account.rank (i.read recorded n) domain a

/-- An account that was recorded beforehand stands once on each page that its rank then falls on,
and on no other. -/
theorem count_onPage (hids : (recorded.map Account.id).Nodup) (ha : a ∈ recorded)
    (hof : a.isOf domain = true) (size : Nat) {n : Nat} (hn : 0 < n) :
    ((i.onPage recorded domain size n).map Account.id).count a.id =
      if Stands size (i.rankOn recorded domain a) n then 1 else 0 := by
  have hread : a ∈ i.read recorded n := (read_prefix_read (Nat.zero_le n)).subset ha
  have hsorted := Account.pairwise_listed (nodup_read (i := i) hids n) domain
  have hsublist : (i.onPage recorded domain size n).Sublist
      (Account.listed (i.read recorded n) domain) := PageRequest.slice_sublist _ _
  have honce : ((i.onPage recorded domain size n).map Account.id).Nodup :=
    List.pairwise_map.mpr ((hsorted.sublist hsublist).imp fun hlt => ne_of_lt hlt)
  have hmem : a.id ∈ (i.onPage recorded domain size n).map Account.id ↔
      a ∈ i.onPage recorded domain size n := by
    refine ⟨fun h => ?_, fun h => List.mem_map_of_mem h⟩
    obtain ⟨b, hb, hid⟩ := List.mem_map.mp h
    have hbread := (Account.mem_listed.mp (hsublist.subset hb)).1
    rwa [List.inj_on_of_nodup_map (nodup_read hids n) hbread hread hid] at hb
  have hstands : a ∈ i.onPage recorded domain size n ↔
      Stands size (i.rankOn recorded domain a) n :=
    PageRequest.mem_slice_iff ⟨n, size⟩ hn hsorted (Account.mem_listed.mpr ⟨hread, hof⟩)
  rw [honce.count, if_congr (hmem.trans hstands) rfl rfl]

/-! ## Answers -/

/-- A page is counted, and then read, as batches have come by then. -/
theorem run_listAccounts (hdb : db.Enrols (i.read recorded (page.number - 1)))
    (hpage : page.check = .ok ()) :
    (i.listAccounts domain page).run db =
      (.ok ⟨page.slice (Account.listed (i.read recorded page.number) domain),
          (Account.listed (i.counted recorded page.number) domain).length⟩,
        db.withAccounts (i.read recorded page.number)) := by
  have hnumber := ((PageRequest.check_eq_ok_iff page).mp hpage).1
  have hbefore : (Database.recordBatches (i.before page.number)).run db =
      ((), db.withAccounts (i.counted recorded page.number)) :=
    Database.run_recordBatches hdb _
  have hcounted := hdb.withAccounts (i.counted recorded page.number)
  have hbetween : (Database.recordBatches (i.between page.number)).run
      (db.withAccounts (i.counted recorded page.number)) =
      ((), db.withAccounts (i.read recorded page.number)) := by
    rw [read_of_pos hnumber]
    exact Database.run_recordBatches hcounted _
  have hread := hdb.withAccounts (i.read recorded page.number)
  have hlisted := Tables.listAccountsAcross_ofAccount hcounted.accounts hread.accounts hpage domain
  show (let (_, counted) := (Database.recordBatches (i.before page.number)).run db
    let (_, read) := (Database.recordBatches (i.between page.number)).run counted
    (counted.tables.listAccountsAcross read.tables domain page, read)) = _
  rw [hbefore]
  dsimp only
  rw [hbetween]
  dsimp only
  rw [hlisted]

/-- Questions other than for accounts. -/
def Elsewhere : Question → Prop
  | .accounts _ _ => False
  | _ => True

theorem answer_stores {q : Question} (h : Elsewhere q) :
    Session.answer i.stores q = Session.answer Database.stores q := by
  cases q with
  | accounts domain page => exact h.elim
  | _ => rfl

/-- How the stores answer. -/
def Answered (i : Enrolment) : Dialogue.Answering (Session Database) := fun s q a t =>
  (Session.answer i.stores q).run s = (a, t)

theorem Answered.step {q : Question} {a : q.Answer} {s t : Session Database}
    (h : i.Answered s q a t) (hq : Elsewhere q) : Session.Step s q a t := by
  have hstep := Session.Step.answered s q
  unfold Answered at h
  rw [answer_stores hq] at h
  rwa [h] at hstep

/-- Answers, of which the rates are usable. -/
def usableRates : Contract := ⟨Elsewhere, Raised.Allowed ⟨fun _ => True, fun _ => True⟩⟩

/-- Elsewhere accounts stay as they are, and only usable rates are handed out. -/
theorem keeps_usableRates (i : Enrolment) (recorded : List Account) :
    Dialogue.Keeps usableRates i.Answered fun s => s.memo.Usable ∧ s.stores.Enrols recorded := by
  rintro s q a t ⟨hmemo, hs⟩ hq h
  have hstep := h.step hq
  have ht : t.stores.Enrols recorded := by
    obtain ⟨snapshots, htables⟩ := hstep.tables_eq
    refine ⟨hstep.writing_eq.trans hs.writing, ?_⟩
    rw [htables]
    exact hs.accounts
  cases q with
  | accounts domain page => exact hq.elim
  | rate scope asset =>
    have husable := Session.usable_rate i.stores scope asset s hmemo
    unfold Answered at h
    rw [h] at husable
    exact ⟨⟨husable.2, fun _ _ => .inr trivial⟩, husable.1, ht⟩
  | transfers account stop page =>
    cases h
    exact ⟨fun _ _ => trivial, hmemo, ht⟩
  | _ =>
    cases h
    exact ⟨trivial, hmemo, ht⟩

/-- Answers where there are no transfers. -/
def idle : Contract where
  asked := Elsewhere
  allowed
    | .transfers _ _ page => fun answer => page.check = .ok () → answer = .ok ⟨[], 0⟩
    | _ => fun _ => True

/-- Where there are no transfers there are none afterwards. -/
theorem keeps_idle (i : Enrolment) :
    Dialogue.Keeps idle i.Answered fun s => s.stores.tables.transfers = some [] := by
  intro s q a t hs hq h
  have ht : t.stores.tables.transfers = some [] := by
    obtain ⟨snapshots, htables⟩ := (h.step hq).tables_eq
    rw [htables]
    exact hs
  cases q with
  | accounts domain page => exact hq.elim
  | transfers account stop page =>
    cases h
    refine ⟨fun hpage => ?_, hs⟩
    have hrecords : s.stores.tables.Records [] := hs
    have hlisted : s.stores.tables.listTransfers account stop page = _ :=
      Tables.listTransfers_ofRecorded hrecords hpage
    refine hlisted.trans ?_
    rw [Ledger.committed_of_pairwise .nil]
    show Except.ok (Listing.mk (page.slice []) 0) = _
    rw [PageRequest.slice_eq_nil _ (Nat.zero_le _)]
  | _ => exact ⟨trivial, ht⟩

end Enrolment

/-- Where there are no transfers there is nothing to report. -/
theorem Walk.idle_run {w : Walk} (hconfig : w.config.check = .ok ()) :
    w.run.Ensures Enrolment.idle (fun custody => custody = ⟨w.account, []⟩) fun _ => False := by
  have hsize : 0 < w.config.transferPageSize := Config.transferPageSize_pos hconfig
  have hpage : (PageRequest.mk 1 w.config.transferPageSize).check = .ok () :=
    (PageRequest.check_eq_ok_iff _).mpr ⟨Nat.one_pos, hsize⟩
  have hlast : (Page.ofListing ⟨1, w.config.transferPageSize⟩
      (Listing.mk ([] : List Transfer) 0)).hasNext ≠ true := by
    intro hnext
    exact absurd (Page.lt_total_of_hasNext hsize hnext) (Nat.not_lt_zero _)
  rw [run, Attempt.ensures_bind, replayPages, Attempt.ensures_bind, Attempt.ensures_question]
  refine ⟨trivial, fun answer hanswer => ?_⟩
  rw [hanswer hpage]
  show Attempt.Ensures _ _ _ (w.replayAll (.empty w.account) [] >>= _)
  rw [Attempt.ensures_bind]
  simp only [dif_neg hlast]
  exact rfl

end Custodian
