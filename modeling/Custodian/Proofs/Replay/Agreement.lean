import Custodian.Proofs.Database.Accounts
import Custodian.Proofs.Database.Lookups
import Custodian.Proofs.Replay.Reference
import Custodian.Proofs.Replay.Result
import Mathlib.Data.List.Nodup
import Mathlib.Data.List.TakeDrop

/-!
# Reports on an account, a domain and everything agree

Reports over one window leave everything as it was for each other: what they record lies behind
the start of the window, and their memos are dropped. So reports on pages and reports on single
accounts, run in any order on the same stores, come to the same totals for an account, and the
pages of a domain are the pages of all accounts without those of other domains
(`Report.reports_agree`).

An account whose full id is read back as the account (`Account.ofId_id`) can be asked for by
itself.
-/

namespace Custodian

/-- A walk that succeeds reports on its own account. -/
theorem Walk.account_of_result {w : Walk} {L : Lookups} {custody : AccountCustody}
    (h : w.result L = .ok custody) : custody.account = w.account := by
  rcases hfailure : w.failure? L (w.reading L 1) with _ | e
  · rw [result_of_reading hfailure] at h
    cases h
    rfl
  · rw [result_of_failure hfailure] at h
    cases h

/-- Results that are all there, one for each of some items. -/
theorem forall₂_of_mapM_id {ι α : Type} {f : ι → Except Error α} {items : List ι} :
    ∀ {values : List α}, (items.map f).mapM id = .ok values →
      List.Forall₂ (fun i value => f i = .ok value) items values := by
  induction items with
  | nil =>
    intro values h
    cases h
    exact .nil
  | cons i items ih =>
    intro values h
    rw [List.map_cons, List.mapM_cons] at h
    obtain ⟨value, hvalue, h⟩ := except_bind_eq_ok_iff.mp h
    obtain ⟨others, hothers, h⟩ := except_bind_eq_ok_iff.mp h
    cases h
    exact .cons hvalue (ih hothers)

/-- Results that are found one by one are found together. -/
theorem mapM_id_of_forall₂ {ι α : Type} {f : ι → Except Error α} {items : List ι}
    {values : List α} (h : List.Forall₂ (fun i value => f i = .ok value) items values) :
    (items.map f).mapM id = .ok values := by
  induction h with
  | nil => rfl
  | cons hi _ ih =>
    rw [List.map_cons, List.mapM_cons, ih]
    show f _ >>= _ = _
    rw [hi]
    rfl

/-- What is related to some items one by one is related to one of them. -/
theorem exists_mem_of_forall₂ {ι α : Type} {R : ι → α → Prop} {items : List ι} {values : List α}
    (h : List.Forall₂ R items values) {value : α} (hvalue : value ∈ values) :
    ∃ i ∈ items, R i value := by
  induction h with
  | nil => cases hvalue
  | cons hi _ ih =>
    rcases List.mem_cons.mp hvalue with rfl | hvalue
    · exact ⟨_, List.mem_cons_self, hi⟩
    · obtain ⟨i, hmem, hi⟩ := ih hvalue
      exact ⟨i, List.mem_cons_of_mem _ hmem, hi⟩

/-! ## Reports one after another -/

namespace Report

variable {config : Config} {window : Window} {db db' db'' : Database}

/-- A report comes to a result, from one database to another, whichever of its recordings
fail. -/
def Ends {α : Type} (report : Attempt α) (db : Database) (result : Except Error α)
    (db' : Database) : Prop :=
  ∃ memo, report.run.RunsTo (Session.Unreliable Database.stores) ⟨.empty, db⟩ result ⟨memo, db'⟩

/-- A report over a window, on an account, a domain or everything. -/
inductive Follows (config : Config) (window : Window) : Database → Database → Prop
  | account {db db' : Database} (id : String) (result : Except Error (Keyed AssetCustody))
      (h : Ends (account config id window.start window.stop) db result db') :
      Follows config window db db'
  | accounts {db db' : Database} (domain : Option String) (page : PageRequest)
      (result : Except Error (Listing AccountCustody))
      (h : Ends (accounts config domain window.start window.stop page) db result db') :
      Follows config window db db'

/-- Any number of reports over a window, one after another. -/
abbrev Later (config : Config) (window : Window) : Database → Database → Prop :=
  Relation.ReflTransGen (Follows config window)

/-- What a report ensures as look-ups stood at first holds at its end, after whichever other
reports, and then look-ups still stand so. -/
theorem Ends.ensures {α : Type} {t : Tables} {start : Int64} {report : Attempt α}
    {result : Except Error α} {post : Except Error α → Prop}
    (hgrew : t.GrewBehind start db.tables)
    (hreport : report.run.Ensures ((t.lookups (RateMemo.empty.rate t)).contract start) post)
    (h : Ends report db result db') : post result ∧ t.GrewBehind start db'.tables := by
  obtain ⟨memo, hrun⟩ := h
  have hs : Session.Reads t (RateMemo.empty.rate t) start ⟨.empty, db⟩ := ⟨hgrew, rfl⟩
  have hend := Session.of_unreliable hs hreport hrun
  exact ⟨hend.1, hend.2.tables⟩

/-- No report over the window changes what another one looks up. -/
theorem Later.grewBehind (hconfig : config.check = .ok ()) (h : Later config window db db') :
    db.tables.GrewBehind window.start db'.tables := by
  induction h with
  | refl => exact db.tables.grewBehind_refl window.start
  | tail _ hfollows ih =>
    cases hfollows with
    | account id result hends =>
      exact (hends.ensures ih (ensures_account_result _ hconfig id _ _)).2
    | accounts domain page result hends =>
      exact (hends.ensures ih (ensures_accounts_result _ hconfig domain _ _ page)).2

/-- What the walk over an account comes to, as look-ups stood at first. -/
def walked (config : Config) (window : Window) (db : Database) (a : Account) :
    Except Error AccountCustody :=
  (Walk.make config window a).result (db.tables.lookups (RateMemo.empty.rate db.tables))

/-- A report on an account comes to what its walk does, whenever it is run. -/
theorem account_of_later (hconfig : config.check = .ok ()) (hwindow : window.Valid)
    {a : Account} (hparse : Account.ofId a.id = .ok a) (hlater : Later config window db db')
    {result : Except Error (Keyed AssetCustody)}
    (h : Ends (account config a.id window.start window.stop) db' result db'') :
    result = (walked config window db a).map AccountCustody.assets := by
  have hresult := (h.ensures (hlater.grewBehind hconfig)
    (ensures_account_result _ hconfig a.id _ _)).1
  rw [hresult]
  unfold accountFrom
  rw [Window.make_of_valid hwindow, hparse]
  show (walked config window db a >>= fun custody => pure custody.assets) = _
  cases walked config window db a <;> rfl

/-- What a report has on a recorded account. -/
structure IsItem (config : Config) (window : Window) (db : Database) (recorded : List Account)
    (a : Account) (item : AccountCustody) : Prop where
  recorded : a ∈ recorded
  walked : walked config window db a = .ok item

namespace IsItem

variable {recorded : List Account} {a b : Account} {item : AccountCustody}

theorem account (h : IsItem config window db recorded a item) : item.account = a.id :=
  Walk.account_of_result h.walked

/-- Ids are different, so an item is about one account. -/
theorem eq_of_account (h : IsItem config window db recorded a item)
    (hids : (recorded.map Account.id).Nodup) (hb : b ∈ recorded) (hitem : item.account = b.id) :
    a = b := List.inj_on_of_nodup_map hids h.recorded hb (h.account.symm.trans hitem)

/-- There is only one list of items of some accounts. -/
theorem unique {accounts : List Account} {items items' : List AccountCustody}
    (h : List.Forall₂ (IsItem config window db recorded) accounts items)
    (h' : List.Forall₂ (IsItem config window db recorded) accounts items') : items = items' := by
  refine List.right_unique_forall₂' (fun a item item' h h' => ?_) h h'
  exact Except.ok.inj (h.walked.symm.trans h'.walked)

end IsItem

/-- A report on a page that succeeds has the totals of each account listed on the page, whenever
it is run. -/
theorem accounts_of_later (hconfig : config.check = .ok ()) (hwindow : window.Valid)
    {recorded : List Account}
    (hrecorded : db.tables.accounts = some (recorded.map AccountRow.ofAccount))
    (hlater : Later config window db db') {domain : Option String} {page : PageRequest}
    {listing : Listing AccountCustody}
    (h : Ends (accounts config domain window.start window.stop page) db' (.ok listing) db'') :
    0 < page.number ∧ 0 < page.size ∧
      listing.total = (Account.listed recorded domain).length ∧
      List.Forall₂ (IsItem config window db recorded)
        (page.slice (Account.listed recorded domain)) listing.items := by
  have hresult := (h.ensures (hlater.grewBehind hconfig)
    (ensures_accounts_result _ hconfig domain _ _ page)).1
  unfold accountsFrom at hresult
  rw [Window.make_of_valid hwindow] at hresult
  obtain ⟨_, hsame, hresult⟩ := except_bind_eq_ok_iff.mp hresult.symm
  cases hsame
  obtain ⟨_, hpage, hresult⟩ := except_bind_eq_ok_iff.mp hresult
  have hlisted : (db.tables.lookups (RateMemo.empty.rate db.tables)).accounts domain page = _ :=
    Tables.listAccounts_ofAccount hrecorded hpage domain
  rw [hlisted] at hresult
  obtain ⟨totals, htotals, hresult⟩ := except_bind_eq_ok_iff.mp hresult
  cases hresult
  obtain ⟨hnumber, hsize⟩ := (PageRequest.check_eq_ok_iff page).mp hpage
  have hmem : ∀ a ∈ page.slice (Account.listed recorded domain), a ∈ recorded := fun a ha =>
    (Account.mem_listed.mp (List.mem_of_mem_drop (List.mem_of_mem_take ha))).1
  have hitems := (List.forall₂_and_left _ _).mpr ⟨hmem, forall₂_of_mapM_id htotals⟩
  exact ⟨hnumber, hsize, rfl, hitems.imp fun a item h => ⟨h.1, h.2⟩⟩

/-- Where the walks over all accounts in scope succeed so does a report on any page, whenever it
is run. -/
theorem accounts_of_items (hconfig : config.check = .ok ()) (hwindow : window.Valid)
    {recorded : List Account}
    (hrecorded : db.tables.accounts = some (recorded.map AccountRow.ofAccount))
    (hlater : Later config window db db') {domain : Option String} {page : PageRequest}
    (hpage : page.check = .ok ()) {items : List AccountCustody}
    (hitems : List.Forall₂ (IsItem config window db recorded)
      (Account.listed recorded domain) items)
    {result : Except Error (Listing AccountCustody)}
    (h : Ends (accounts config domain window.start window.stop page) db' result db'') :
    result = .ok ⟨page.slice items, (Account.listed recorded domain).length⟩ := by
  have hresult := (h.ensures (hlater.grewBehind hconfig)
    (ensures_accounts_result _ hconfig domain _ _ page)).1
  have hlisted : (db.tables.lookups (RateMemo.empty.rate db.tables)).accounts domain page = _ :=
    Tables.listAccounts_ofAccount hrecorded hpage domain
  have hslice := List.forall₂_take page.size (List.forall₂_drop page.offset hitems)
  have htotals := mapM_id_of_forall₂ (hslice.imp fun a item h => IsItem.walked h)
  rw [hresult]
  unfold accountsFrom
  rw [Window.make_of_valid hwindow, hpage, hlisted]
  show List.mapM id (List.map (walked config window db) (page.slice _)) >>= _ = _
  have hslices : List.mapM id (List.map (walked config window db) (page.slice _)) =
      .ok (page.slice items) := htotals
  rw [hslices]
  rfl

/-! ## All pages -/

/-- Successful reports on all pages of a domain, or of all accounts, each run whenever. -/
structure Pages (config : Config) (window : Window) (db : Database) (domain : Option String)
    (size : Nat) (pages : List (Listing AccountCustody)) : Prop where
  reported : ∀ i (h : i < pages.length), ∃ db₁ db₂, Later config window db db₁ ∧
    Ends (accounts config domain window.start window.stop ⟨i + 1, size⟩) db₁ (.ok pages[i]) db₂
  inRange : ∀ i < pages.length, (PageRequest.mk (i + 1) size).InRange
  nonempty : pages ≠ []
  complete : ∀ listing ∈ pages, listing.total ≤ pages.length * size

variable {recorded : List Account} {domain : Option String} {size : Nat}
  {pages : List (Listing AccountCustody)}

/-- The pages up to some number have the totals of the accounts listed on them. -/
theorem Pages.take (hconfig : config.check = .ok ()) (hwindow : window.Valid)
    (hrecorded : db.tables.accounts = some (recorded.map AccountRow.ofAccount))
    (h : Pages config window db domain size pages) (n : Nat) (hn : n ≤ pages.length) :
    List.Forall₂ (IsItem config window db recorded)
      ((Account.listed recorded domain).take (n * size))
      ((pages.take n).flatMap Listing.items) := by
  induction n with
  | zero => simp
  | succ n ih =>
    have hlt : n < pages.length := hn
    obtain ⟨db₁, db₂, hlater, hends⟩ := h.reported n hlt
    obtain ⟨hnumber, -, -, hitems⟩ := accounts_of_later hconfig hwindow hrecorded hlater hends
    have hrows := PageRequest.take_offset_append_slice ⟨n + 1, size⟩ hnumber
      (Account.listed recorded domain)
    have hoffset : (PageRequest.mk (n + 1) size).offset = n * size := rfl
    rw [hoffset] at hrows
    rw [← hrows, List.take_succ_eq_append_getElem hlt, List.flatMap_append]
    refine List.rel_append (ih (by omega)) ?_
    simpa using hitems

/-- All pages together have the totals of all accounts listed. -/
theorem Pages.all (hconfig : config.check = .ok ()) (hwindow : window.Valid)
    (hrecorded : db.tables.accounts = some (recorded.map AccountRow.ofAccount))
    (h : Pages config window db domain size pages) :
    List.Forall₂ (IsItem config window db recorded)
      (Account.listed recorded domain) (pages.flatMap Listing.items) := by
  have htake := h.take hconfig hwindow hrecorded pages.length (Nat.le_refl _)
  have hpos : 0 < pages.length := List.length_pos_of_ne_nil h.nonempty
  obtain ⟨db₁, db₂, hlater, hends⟩ := h.reported 0 hpos
  have htotal := (accounts_of_later hconfig hwindow hrecorded hlater hends).2.2.1
  have hcomplete := h.complete _ (List.getElem_mem hpos)
  rw [htotal] at hcomplete
  rwa [List.take_of_length_le hcomplete, List.take_length] at htake

/-! ## Agreement -/

/-- Whether an item is about a recorded account of a domain. -/
def isItemOf (recorded : List Account) (domain : String) (item : AccountCustody) : Bool :=
  recorded.any fun a => a.id == item.account && a.domain == domain

/-- Reports on the same stores agree, in whatever order they are run and whichever of their
recordings fail. A page that succeeds, its offset in range, has one item for each account listed
on it, in the order of the ids; a report on one of these accounts gives the totals of its item;
and the pages of a domain, all together, are those of all accounts without the items of other
domains. -/
theorem reports_agree (hconfig : config.check = .ok ()) (hwindow : window.Valid)
    (hrecorded : db.tables.accounts = some (recorded.map AccountRow.ofAccount))
    (hids : (recorded.map Account.id).Nodup) :
    (∀ domain, (Account.listed recorded domain).Pairwise (fun a b => a.id < b.id) ∧
      ∀ a, a ∈ Account.listed recorded domain ↔ a ∈ recorded ∧ ∀ d ∈ domain, a.domain = d) ∧
    (∀ domain page db₁ listing db₂, page.InRange → Later config window db db₁ →
      Ends (accounts config domain window.start window.stop page) db₁ (.ok listing) db₂ →
      listing.total = (Account.listed recorded domain).length ∧
      listing.items.map AccountCustody.account =
        (page.slice (Account.listed recorded domain)).map Account.id ∧
      ∀ a ∈ recorded, a.name ≠ "" → '@' ∉ a.name.toList → a.domain ≠ "" →
        ∀ item ∈ listing.items, item.account = a.id → ∀ db₃ result db₄,
          Later config window db db₃ →
          Ends (account config a.id window.start window.stop) db₃ result db₄ →
          result = .ok item.assets) ∧
    ∀ domain size size' ofDomain ofAll, Pages config window db (some domain) size ofDomain →
      Pages config window db none size' ofAll →
      ofDomain.flatMap Listing.items =
        (ofAll.flatMap Listing.items).filter (isItemOf recorded domain) := by
  refine ⟨fun domain => ⟨Account.pairwise_listed hids domain, fun a => ?_⟩,
    fun domain page db₁ listing db₂ _ hlater hends => ?_,
    fun domain size size' ofDomain ofAll hdomain hall => ?_⟩
  · rw [Account.mem_listed]
    cases domain <;> simp [Account.isOf]
  · obtain ⟨-, -, htotal, hitems⟩ := accounts_of_later hconfig hwindow hrecorded hlater hends
    refine ⟨htotal, ?_,
      fun a ha hname hat hdomain item hitem hid db₃ result db₄ hlater' hends' => ?_⟩
    · have haccounts : List.Forall₂ (· = ·) (listing.items.map AccountCustody.account)
          ((page.slice (Account.listed recorded domain)).map Account.id) := by
        rw [List.forall₂_map_left_iff, List.forall₂_map_right_iff]
        exact hitems.flip.imp fun item a h => h.account
      exact List.forall₂_eq_eq_eq ▸ haccounts
    · obtain ⟨b, -, hb⟩ := exists_mem_of_forall₂ hitems hitem
      have hsame := hb.eq_of_account hids ha hid
      rw [account_of_later hconfig hwindow (Account.ofId_id hname hat hdomain) hlater' hends',
        ← hsame, hb.walked]
      rfl
  · have hdomainItems := hdomain.all hconfig hwindow hrecorded
    have hallItems := hall.all hconfig hwindow hrecorded
    rw [← Account.filter_listed] at hdomainItems
    have hsame : ∀ a item, IsItem config window db recorded a item →
        (a.isOf (some domain) = true ↔ isItemOf recorded domain item = true) := by
      intro a item h
      have hof : a.isOf (some domain) = true ↔ a.domain = domain := by
        simp [Account.isOf]
      rw [hof, isItemOf, List.any_eq_true]
      constructor
      · intro hdomain
        exact ⟨a, h.recorded, by simp [hdomain, h.account]⟩
      · rintro ⟨b, hb, hitem⟩
        rw [Bool.and_eq_true, beq_iff_eq, beq_iff_eq] at hitem
        rw [h.eq_of_account hids hb hitem.1.symm]
        exact hitem.2
    exact IsItem.unique hdomainItems (List.rel_filter hsame hallItems)

/-- Running a report from an empty memo is one way for it to end. -/
theorem ends_runOn {α : Type} (report : Attempt α) (db : Database) :
    Ends report db ((runOn Database.stores report).run db).1
      ((runOn Database.stores report).run db).2 :=
  ⟨_, Session.runsTo_unreliable Database.stores report.run ⟨.empty, db⟩⟩

end Report

/-! ## A bank and a shop -/

namespace Sample

/-- Zoe, Alice and the treasury, as they were recorded. -/
def recorded : List Account := [⟨"zoe", "shop"⟩, account, ⟨"treasury", "bank"⟩]

/-- The two transfers, Alice's snapshot, and three accounts. -/
def database : Database :=
  .ofTables { tables [row] with accounts := some (recorded.map .ofAccount) }

/-- What the three accounts come to, in the order of their ids. -/
def items : List AccountCustody := [custody, debt, ⟨"zoe@shop", []⟩]

theorem listed_all :
    Account.listed recorded none = [account, ⟨"treasury", "bank"⟩, ⟨"zoe", "shop"⟩] :=
  Account.listed_eq (by decide) (by decide) (by decide)

theorem listed_bank :
    Account.listed recorded (some "bank") = [account, ⟨"treasury", "bank"⟩] :=
  Account.listed_eq (by decide) (by decide) (by decide)

/-- What a walk reads where the two transfers are recorded. -/
theorem reading (db : Database) (h : db.tables.Records ledger) (a : Account) :
    (Walk.make .default ⟨20, 100⟩ a).reading
        (db.tables.lookups (RateMemo.empty.rate db.tables)) 1 =
      (Commits.ofAccount (ledger.map fun r => r.transfer.stored) a.id 100, none) := by
  have hsize : 0 < Config.default.transferPageSize := by decide
  have hfits : (ledger.committed.ofAccount a.id 100).length ≤
      Config.default.transferPageSize * maxPage := Nat.le_trans (fits a.id 100) (by decide)
  rw [← committed_ledger]
  exact Walk.reading_of_records h rfl hsize hfits 1 Nat.one_pos

/-- From the snapshot of her fifty units Alice comes to what she comes to without it. -/
theorem walked_account :
    Report.walked .default ⟨20, 100⟩ (.ofTables (tables [row])) account = .ok custody := by
  unfold Report.walked Walk.result
  rw [reading (.ofTables (tables [row])) (records [row])]
  decide +kernel

/-- Each of the three accounts comes to its item. -/
theorem isItem_items :
    List.Forall₂ (Report.IsItem .default ⟨20, 100⟩ database recorded)
      (Account.listed recorded none) items := by
  rw [listed_all]
  refine .cons ⟨by decide, ?_⟩ (.cons ⟨by decide, ?_⟩ (.cons ⟨by decide, ?_⟩ .nil))
  · unfold Report.walked Walk.result
    rw [reading database rfl]
    decide +kernel
  · unfold Report.walked Walk.result
    rw [reading database rfl]
    decide +kernel
  · unfold Report.walked Walk.result
    rw [reading database rfl]
    decide +kernel

/-- The accounts of the bank come to theirs. -/
theorem isItem_bank :
    List.Forall₂ (Report.IsItem .default ⟨20, 100⟩ database recorded)
      (Account.listed recorded (some "bank")) [custody, debt] := by
  have hall := isItem_items
  rw [listed_all] at hall
  rw [listed_bank]
  exact List.forall₂_take 2 hall

end Sample

namespace Report

/-- Two pages with the accounts of the bank, a report on Alice, and two larger pages with all
accounts, one after another. -/
theorem reports_sample_agree :
    let run {α : Type} (report : Attempt α) (db : Database) := (runOn Database.stores report).run db
    let bank₁ := run (accounts .default (some "bank") 20 100 ⟨1, 1⟩) Sample.database
    let bank₂ := run (accounts .default (some "bank") 20 100 ⟨2, 1⟩) bank₁.2
    let alice := run (account .default "alice@bank" 20 100) bank₂.2
    let all₁ := run (accounts .default none 20 100 ⟨1, 2⟩) alice.2
    let all₂ := run (accounts .default none 20 100 ⟨2, 2⟩) all₁.2
    let ofBank : List (Listing AccountCustody) := [⟨[Sample.custody], 2⟩, ⟨[Sample.debt], 2⟩]
    let ofAll : List (Listing AccountCustody) :=
      [⟨[Sample.custody, Sample.debt], 3⟩, ⟨[⟨"zoe@shop", []⟩], 3⟩]
    [bank₁.1, bank₂.1] = ofBank.map .ok ∧ [all₁.1, all₂.1] = ofAll.map .ok ∧
      alice.1 = .ok Sample.custody.assets ∧
      Pages .default ⟨20, 100⟩ Sample.database (some "bank") 1 ofBank ∧
      Pages .default ⟨20, 100⟩ Sample.database none 2 ofAll ∧
      ofBank.flatMap Listing.items =
        (ofAll.flatMap Listing.items).filter (isItemOf Sample.recorded "bank") := by
  intro run bank₁ bank₂ alice all₁ all₂ ofBank ofAll
  have hconfig : Config.default.check = .ok () := by decide
  have hwindow : (Window.mk 20 100).Valid := by decide
  have hrecorded : Sample.database.tables.accounts =
      some (Sample.recorded.map AccountRow.ofAccount) := rfl
  have hpage : ∀ {db items} (domain : Option String) (page : PageRequest),
      Later .default ⟨20, 100⟩ Sample.database db → page.check = .ok () →
      List.Forall₂ (IsItem .default ⟨20, 100⟩ Sample.database Sample.recorded)
        (Account.listed Sample.recorded domain) items →
      (run (accounts .default domain 20 100 page) db).1 =
        .ok ⟨page.slice items, (Account.listed Sample.recorded domain).length⟩ :=
    fun domain page hlater hcheck hitems =>
      accounts_of_items hconfig hwindow hrecorded hlater hcheck hitems (ends_runOn _ _)
  have hthen : ∀ {db} (domain : Option String) (page : PageRequest),
      Later .default ⟨20, 100⟩ Sample.database db →
      Later .default ⟨20, 100⟩ Sample.database (run (accounts .default domain 20 100 page) db).2 :=
    fun domain page hlater => hlater.tail (.accounts domain page _ (ends_runOn _ _))
  have hlater₁ := hthen (some "bank") ⟨1, 1⟩ .refl
  have hlater₂ := hthen (some "bank") ⟨2, 1⟩ hlater₁
  have hlater : Later .default ⟨20, 100⟩ Sample.database alice.2 :=
    hlater₂.tail (.account "alice@bank" _ (ends_runOn _ _))
  have hlater₃ := hthen none ⟨1, 2⟩ hlater
  have hbank₁ : bank₁.1 = .ok ⟨[Sample.custody], 2⟩ := by
    have h := hpage (some "bank") ⟨1, 1⟩ .refl rfl Sample.isItem_bank
    rwa [Sample.listed_bank] at h
  have hbank₂ : bank₂.1 = .ok ⟨[Sample.debt], 2⟩ := by
    have h := hpage (some "bank") ⟨2, 1⟩ hlater₁ rfl Sample.isItem_bank
    rwa [Sample.listed_bank] at h
  have hall₁ : all₁.1 = .ok ⟨[Sample.custody, Sample.debt], 3⟩ := by
    have h := hpage none ⟨1, 2⟩ hlater rfl Sample.isItem_items
    rwa [Sample.listed_all] at h
  have hall₂ : all₂.1 = .ok ⟨[⟨"zoe@shop", []⟩], 3⟩ := by
    have h := hpage none ⟨2, 2⟩ hlater₃ rfl Sample.isItem_items
    rwa [Sample.listed_all] at h
  have hends : ∀ {α : Type} (report : Attempt α) (db : Database) {result},
      (run report db).1 = result → Ends report db result (run report db).2 := by
    rintro α report db _ rfl
    exact ends_runOn report db
  have hofBank : Pages .default ⟨20, 100⟩ Sample.database (some "bank") 1 ofBank := by
    refine ⟨fun i hi => ?_, by decide, by decide, by decide⟩
    match i, hi with
    | 0, _ => exact ⟨_, _, .refl, hends _ _ hbank₁⟩
    | 1, _ => exact ⟨_, _, hlater₁, hends _ _ hbank₂⟩
  have hofAll : Pages .default ⟨20, 100⟩ Sample.database none 2 ofAll := by
    refine ⟨fun i hi => ?_, by decide, by decide, by decide⟩
    match i, hi with
    | 0, _ => exact ⟨_, _, hlater, hends _ _ hall₁⟩
    | 1, _ => exact ⟨_, _, hlater₃, hends _ _ hall₂⟩
  obtain ⟨-, hitems, hpages⟩ := reports_agree hconfig hwindow hrecorded (by decide)
  refine ⟨?_, ?_, ?_, hofBank, hofAll, hpages "bank" 1 2 ofBank ofAll hofBank hofAll⟩
  · rw [hbank₁, hbank₂]
    rfl
  · rw [hall₁, hall₂]
    rfl
  · exact (hitems none ⟨1, 2⟩ alice.2 _ _ (by decide) hlater (hends _ _ hall₁)).2.2 Sample.account
      (by decide) (by decide) (by decide) (by decide) Sample.custody (by decide) (by decide)
      bank₂.2 alice.1 alice.2 hlater₂ (ends_runOn _ _)

end Report

end Custodian
