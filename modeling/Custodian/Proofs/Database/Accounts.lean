import Custodian.Proofs.Database.FirstWins
import Custodian.Proofs.Database.Session
import Custodian.Proofs.Ledger.Rank
import Mathlib.Data.List.Nodup
import Mathlib.Data.List.TakeDrop

/-!
# The table of accounts

Accounts are listed by full id (`Account.listed`), whatever the order in which they were recorded.
A batch adds those of its accounts whose full id is not taken (`Account.enrolled`), so accounts come
at the end of the table but anywhere in the listing. A page is read in two queries, its accounts
being counted in all before those on the page are read (`Tables.listAccountsAcross`).
-/

namespace Custodian

namespace Account

variable {a : Account} {recorded : List Account} {domain : Option String}

/-- A full id is read back as its account if the name is not empty and has no `@`, and the domain
is not empty. -/
theorem ofId_id (hname : a.name ≠ "") (hat : '@' ∉ a.name.toList) (hdomain : a.domain ≠ "") :
    ofId a.id = .ok a := by
  have hspan : a.id.toList.span (· ≠ '@') = (a.name.toList, '@' :: a.domain.toList) := by
    have hid : a.id.toList = a.name.toList ++ '@' :: a.domain.toList := by
      simp [id]
    have hall : ∀ c ∈ a.name.toList, (decide (c ≠ '@')) = true := by
      intro c hc
      rw [decide_eq_true_eq]
      rintro rfl
      exact hat hc
    rw [hid, List.span_eq_takeWhile_dropWhile, List.takeWhile_append_of_pos hall,
      List.dropWhile_append_of_pos hall]
    simp
  have hname' : a.name.toList ≠ [] := by simpa using hname
  have hdomain' : a.domain.toList ≠ [] := by simpa using hdomain
  unfold ofId
  rw [hspan]
  obtain ⟨c, name, hc⟩ := List.exists_cons_of_ne_nil hname'
  obtain ⟨d, dom, hd⟩ := List.exists_cons_of_ne_nil hdomain'
  rw [hc, hd]
  show Except.ok (Account.mk (String.ofList (c :: name)) (String.ofList (d :: dom))) = .ok a
  rw [← hc, ← hd, String.ofList_toList, String.ofList_toList]

/-- Whether an account is one of a domain, or of all accounts. -/
def isOf (domain : Option String) (a : Account) : Bool := domain.all (a.domain == ·)

/-- The recorded accounts of a domain, or all, by full id. -/
def listed (recorded : List Account) (domain : Option String) : List Account :=
  (recorded.filter (isOf domain)).mergeSort fun a b => decide (a.id ≤ b.id)

theorem mem_listed : a ∈ listed recorded domain ↔ a ∈ recorded ∧ a.isOf domain = true := by
  unfold listed
  rw [List.mem_mergeSort, List.mem_filter]

theorem le_trans_id (a b c : Account) (h : decide (a.id ≤ b.id) = true)
    (h' : decide (b.id ≤ c.id) = true) : decide (a.id ≤ c.id) = true := by
  rw [decide_eq_true_eq] at h h' ⊢
  exact le_trans h h'

theorem le_total_id (a b : Account) : (decide (a.id ≤ b.id) || decide (b.id ≤ a.id)) = true := by
  rw [Bool.or_eq_true, decide_eq_true_eq, decide_eq_true_eq]
  exact le_total a.id b.id

/-- Listed accounts are in the order of their ids. -/
theorem pairwise_listed (hids : (recorded.map Account.id).Nodup) (domain : Option String) :
    (listed recorded domain).Pairwise fun a b => a.id < b.id := by
  have hsorted : (listed recorded domain).Pairwise fun a b => a.id ≤ b.id := by
    have hpairwise := List.pairwise_mergeSort le_trans_id le_total_id
      (recorded.filter (isOf domain))
    exact hpairwise.imp fun h => of_decide_eq_true h
  have hdistinct : (listed recorded domain).Pairwise fun a b => a.id ≠ b.id := by
    have hperm := List.mergeSort_perm (recorded.filter (isOf domain))
      fun a b => decide (a.id ≤ b.id)
    have hfilter : (recorded.filter (isOf domain)).Pairwise fun a b => a.id ≠ b.id :=
      (List.pairwise_map.mp hids).filter _
    exact hperm.symm.pairwise hfilter fun h => h.symm
  exact hsorted.imp₂ (fun _ _ hle hne => lt_of_le_of_ne hle hne) hdistinct

/-- The listing is the only way to put the accounts of a domain in order. -/
theorem listed_eq {sorted : List Account} (hids : (recorded.map Account.id).Nodup)
    (hsorted : sorted.Pairwise fun a b => a.id < b.id)
    (hperm : sorted.Perm (recorded.filter (isOf domain))) : listed recorded domain = sorted := by
  have hall : (listed recorded domain).Perm sorted := (List.mergeSort_perm _ _).trans hperm.symm
  refine hall.eq_of_pairwise (fun a b _ _ hab hba => ?_) (pairwise_listed hids domain) hsorted
  exact absurd hba (lt_asymm hab)

theorem length_listed (recorded : List Account) (domain : Option String) :
    (listed recorded domain).length = (recorded.filter (isOf domain)).length :=
  (List.mergeSort_perm _ _).length_eq

/-- The accounts of a domain are those of all accounts that are of the domain. -/
theorem filter_listed (recorded : List Account) (domain : Option String) :
    (listed recorded none).filter (isOf domain) = listed recorded domain := by
  unfold listed
  rw [filter_mergeSort le_trans_id le_total_id, List.filter_filter]
  show List.mergeSort (recorded.filter fun a => isOf domain a && true) _ = _
  simp only [Bool.and_true]

/-- The number of accounts listed before one. -/
abbrev rank (recorded : List Account) (domain : Option String) (a : Account) : Nat :=
  PageRequest.rank Account.id (listed recorded domain) a

theorem rank_eq_countP (recorded : List Account) (domain : Option String) (a : Account) :
    rank recorded domain a =
      (recorded.filter (isOf domain)).countP fun b => decide (b.id < a.id) :=
  (List.mergeSort_perm (recorded.filter (isOf domain)) _).countP_eq _

/-- Accounts that are recorded later may come before one, and none that came before it goes. -/
theorem rank_le {recorded' : List Account} (h : recorded <+: recorded')
    (domain : Option String) (a : Account) : rank recorded domain a ≤ rank recorded' domain a := by
  rw [rank_eq_countP, rank_eq_countP]
  exact (h.sublist.filter _).countP_le

/-- No account of a domain that is listed before another one is recorded later. -/
def NoneBefore (domain : Option String) (a : Account) (recorded recorded' : List Account) : Prop :=
  ∀ b ∈ recorded', b.isOf domain = true → b.id < a.id → b ∈ recorded

theorem NoneBefore.rank_eq {recorded' : List Account} (hnone : NoneBefore domain a recorded recorded')
    (h : recorded <+: recorded') (hids : (recorded'.map Account.id).Nodup) :
    rank recorded' domain a = rank recorded domain a := by
  obtain ⟨added, rfl⟩ := h
  have hadded : (added.filter (isOf domain)).countP (fun b => decide (b.id < a.id)) = 0 := by
    rw [List.countP_eq_zero]
    intro b hb hlt
    obtain ⟨hb, hof⟩ := List.mem_filter.mp hb
    have hold := hnone b (List.mem_append_right _ hb) hof (of_decide_eq_true hlt)
    rw [List.map_append] at hids
    exact (List.nodup_append.mp hids).2.2 _ (List.mem_map_of_mem hold) _
      (List.mem_map_of_mem hb) rfl
  rw [rank_eq_countP, rank_eq_countP, List.filter_append, List.countP_append, hadded, Nat.add_zero]

/-- What is recorded after a batch: accounts whose full id is taken are passed over. -/
def enrolled (recorded : List Account) : List Account → List Account
  | [] => recorded
  | a :: batch =>
    if recorded.any (·.id == a.id) then enrolled recorded batch
    else enrolled (recorded ++ [a]) batch

/-- The first account with each full id is kept. -/
theorem enrolled_eq_keepFirst (recorded batch : List Account) :
    enrolled recorded batch = keepFirst id recorded batch := by
  induction batch generalizing recorded with
  | nil => rfl
  | cons a batch ih =>
    rw [enrolled, keepFirst_cons]
    split
    · exact ih recorded
    · exact ih (recorded ++ [a])

/-- Batches add at the end. -/
theorem prefix_enrolled (recorded batch : List Account) : recorded <+: enrolled recorded batch := by
  rw [enrolled_eq_keepFirst]
  exact prefix_keepFirst recorded batch

/-- Full ids stay distinct. -/
theorem nodup_enrolled {batch : List Account} (hids : (recorded.map Account.id).Nodup) :
    ((enrolled recorded batch).map Account.id).Nodup := by
  rw [enrolled_eq_keepFirst]
  exact nodup_keepFirst hids batch

end Account

namespace Tables

variable {t t' : Tables} {recorded recorded' : List Account} {page : PageRequest}

/-! ## Listing -/

/-- A page whose accounts are counted in some tables and read from others. -/
def listAccountsAcross (counted read : Tables) (domain : Option String) (page : PageRequest) :
    Except Error (Listing Account) := do
  page.check
  let total ← counted.countAccounts domain
  let items ← read.accountsOn domain page
  return ⟨items, total⟩

/-- Nothing is recorded in between. -/
theorem listAccountsAcross_self (t : Tables) (domain : Option String) :
    t.listAccountsAcross t domain page = t.listAccounts domain page := rfl

theorem accountsOf_ofAccount (recorded : List Account) (domain : Option String) :
    accountsOf (recorded.map AccountRow.ofAccount) domain =
      (Account.listed recorded domain).map AccountRow.ofAccount := by
  have hof : isAccountOf domain ∘ AccountRow.ofAccount = Account.isOf domain := by
    funext a
    cases domain <;> rfl
  unfold accountsOf Account.listed
  rw [List.filter_map, hof]
  refine (List.map_mergeSort ?_).symm
  intro _ _ _ _
  rfl

/-- A page has the accounts that are recorded when it is read, and the number of those that were
recorded when they were counted. -/
theorem listAccountsAcross_ofAccount (h : t.accounts = some (recorded.map AccountRow.ofAccount))
    (h' : t'.accounts = some (recorded'.map AccountRow.ofAccount))
    (hpage : page.check = .ok ()) (domain : Option String) :
    t.listAccountsAcross t' domain page =
      .ok ⟨page.slice (Account.listed recorded' domain),
        (Account.listed recorded domain).length⟩ := by
  unfold listAccountsAcross countAccounts accountsOn
  rw [hpage, h, h']
  show Except.ok (Listing.mk ((page.slice (accountsOf _ domain)).map AccountRow.toAccount)
    (accountsOf _ domain).length) = _
  rw [accountsOf_ofAccount, accountsOf_ofAccount, map_slice, List.length_map, List.map_map]
  congr 2
  exact List.map_id _

/-- A page of the recorded accounts, counted together with all others. -/
theorem listAccounts_ofAccount (h : t.accounts = some (recorded.map AccountRow.ofAccount))
    (hpage : page.check = .ok ()) (domain : Option String) :
    t.listAccounts domain page =
      .ok ⟨page.slice (Account.listed recorded domain),
        (Account.listed recorded domain).length⟩ := by
  rw [← listAccountsAcross_self]
  exact listAccountsAcross_ofAccount h h hpage domain

/-! ## Recording -/

/-- The row of an account is refused if its full id is taken, and comes last otherwise. -/
theorem insertInto_ofAccount (recorded : List Account) (a : Account) :
    insertInto (recorded.map AccountRow.ofAccount) (.ofAccount a) accountKeys =
      if recorded.any (·.id == a.id) then .error (keyTaken .accounts ["account_id"])
      else .ok ((recorded ++ [a]).map AccountRow.ofAccount) := by
  have hany : ((recorded.map AccountRow.ofAccount).any fun r => r.id == (AccountRow.ofAccount a).id) =
      recorded.any (·.id == a.id) := by
    rw [List.any_map]
    rfl
  unfold insertInto accountKeys
  rw [List.find?_singleton, hany]
  by_cases htaken : recorded.any (·.id == a.id) = true
  · rw [if_pos htaken, if_pos htaken]
  · rw [if_neg htaken, if_neg htaken, List.map_append]
    rfl

/-- Accounts are kept by full id. -/
theorem keyedBy_accounts : KeyedBy accountKeys AccountRow.ofAccount Account.id where
  taken recorded a htaken := ⟨_, (insertInto_ofAccount recorded a).trans (if_pos htaken)⟩
  free recorded a hfree :=
    (insertInto_ofAccount recorded a).trans (if_neg (Bool.eq_false_iff.mp hfree))

/-- After a batch the table holds the first account with each id, and those that are new are
counted. -/
theorem recordAccounts_eq (h : t.accounts = some (recorded.map AccountRow.ofAccount))
    (batch : List Account) :
    t.recordAccounts batch =
      .ok ((keepFirst Account.id recorded batch).length - recorded.length,
        { t with accounts := some ((keepFirst Account.id recorded batch).map .ofAccount) }) := by
  unfold recordAccounts
  rcases batch with _ | ⟨a, batch⟩
  · rw [keepFirst_nil, Nat.sub_self, ← h]
    rfl
  · rw [h]
    simp only [List.isEmpty_cons, Bool.false_eq_true, if_false, Tables.rows, bind, Except.bind,
      keyedBy_accounts.insertNew_eq]
    rfl

/-- After a batch the table holds what is recorded with it. -/
theorem recordAccounts_ofAccount (h : t.accounts = some (recorded.map AccountRow.ofAccount))
    (batch : List Account) :
    ∃ n, t.recordAccounts batch = .ok (n, { t with
      accounts := some ((Account.enrolled recorded batch).map AccountRow.ofAccount) }) := by
  rw [Account.enrolled_eq_keepFirst]
  exact ⟨_, recordAccounts_eq h batch⟩

end Tables

namespace Database

variable {db : Database} {recorded : List Account}

/-- The writer runs, and the table of accounts holds these accounts. -/
structure Enrols (recorded : List Account) (db : Database) : Prop where
  writing : db.writing = true
  accounts : db.tables.accounts = some (recorded.map AccountRow.ofAccount)

/-- The same database with other accounts. -/
def withAccounts (db : Database) (recorded : List Account) : Database :=
  { db with tables := { db.tables with accounts := some (recorded.map AccountRow.ofAccount) } }

theorem Enrols.withAccounts (h : db.Enrols recorded) (recorded' : List Account) :
    (db.withAccounts recorded').Enrols recorded' := ⟨h.writing, rfl⟩

theorem Enrols.withAccounts_self (h : db.Enrols recorded) : db.withAccounts recorded = db := by
  unfold Database.withAccounts
  rw [← h.accounts]

/-- Records a batch of accounts. -/
def recordAccounts (batch : List Account) : StateM Database (Except Error Nat) :=
  write fun t => t.recordAccounts batch

/-- While the writer runs a batch is recorded, and nothing else changes. -/
theorem run_recordAccounts (h : db.Enrols recorded) (batch : List Account) :
    ((recordAccounts batch).run db).2 = db.withAccounts (Account.enrolled recorded batch) := by
  obtain ⟨n, hrecorded⟩ := Tables.recordAccounts_ofAccount h.accounts batch
  unfold recordAccounts
  rw [write_of_ok h.writing hrecorded]
  rfl

/-- Records batches one after another. -/
def recordBatches (batches : List (List Account)) : StateM Database Unit := fun db =>
  ((), batches.foldl (fun db batch => ((recordAccounts batch).run db).2) db)

theorem run_recordBatches (h : db.Enrols recorded) (batches : List (List Account)) :
    (recordBatches batches).run db =
      ((), db.withAccounts (batches.foldl Account.enrolled recorded)) := by
  induction batches generalizing db recorded with
  | nil => exact congrArg (Prod.mk ()) h.withAccounts_self.symm
  | cons batch batches ih =>
    have hrest := ih (h.withAccounts (Account.enrolled recorded batch))
    rw [← run_recordAccounts h batch] at hrest
    refine hrest.trans ?_
    rw [run_recordAccounts h batch]
    rfl

end Database

end Custodian
