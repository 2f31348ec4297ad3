import Custodian.Proofs.Cli.Paging
import Custodian.Proofs.Database.Enrolment
import Mathlib.Data.List.Perm.Subperm

/-!
# Accounts are recorded while pages are reported on

A statement over all pages asks for the accounts of one page after another, and each page cuts the
listing as it then stands. An account that is recorded in between pushes those that are listed
behind it on by one place. So an account that was recorded beforehand may come to stand on the next
page again, and is then billed twice; or be pushed off the last page between the count and the
reading, and is then left out. Nothing else can happen to it
(`Command.statement_under_enrolment`).
-/

namespace Custodian

namespace Enrolment

variable {i : Enrolment} {recorded : List Account} {domain : Option String} {a : Account}

/-- What a statement bills page by page, from a page up to the last one, and the number of accounts
that it tells. -/
structure Bills (i : Enrolment) (recorded : List Account) (domain : Option String)
    (size n last : Nat) (billed : List String) (total : Nat) : Prop where
  size_pos : 0 < size
  first_pos : 0 < n
  first_le : n ≤ last
  last_le : last ≤ maxPage
  goes : ∀ k, n ≤ k → k < last → k * size < (i.scope recorded domain k).length
  ends : (i.scope recorded domain last).length ≤ last * size ∨ last = maxPage
  total_eq : total = (i.scope recorded domain last).length
  billed_eq : billed =
    (List.range' n (last + 1 - n)).flatMap fun k => (i.onPage recorded domain size k).map Account.id

namespace Bills

variable {size last total : Nat} {billed : List String}

/-- An account that was recorded beforehand is billed once for each page that it stands on. -/
theorem count (h : i.Bills recorded domain size 1 last billed total)
    (hids : (recorded.map Account.id).Nodup) (ha : a ∈ recorded) (hof : a.isOf domain = true) :
    billed.count a.id =
      (List.range' 1 last).countP fun n => decide (Stands size (i.rankOn recorded domain a) n) := by
  rw [h.billed_eq, Nat.add_sub_cancel]
  apply count_flatMap_eq_countP
  intro n hn
  rw [count_onPage hids ha hof size (List.mem_range'_1.mp hn).1]
  simp only [decide_eq_true_eq]

/-- It is billed if it is not pushed off the last page after the count. -/
theorem count_pos (h : i.Bills recorded domain size 1 last billed total)
    (hids : (recorded.map Account.id).Nodup) (ha : a ∈ recorded) (hof : a.isOf domain = true)
    (hfits : total ≤ size * maxPage)
    (hnone : Account.NoneBefore domain a (i.counted recorded last) (i.read recorded last)) :
    0 < billed.count a.id := by
  have hgrows : ∀ n, i.rankOn recorded domain a n ≤ i.rankOn recorded domain a (n + 1) :=
    fun n => Account.rank_le (read_prefix_read (Nat.le_succ n)) domain a
  have hlast : i.rankOn recorded domain a last < last * size := by
    have hcounted : a ∈ Account.listed (i.counted recorded last) domain :=
      Account.mem_listed.mpr
        ⟨((read_prefix_read (Nat.zero_le _)).trans (prefix_counted last)).subset ha, hof⟩
    have hrank : i.rankOn recorded domain a last < (i.scope recorded domain last).length := by
      unfold rankOn
      rw [hnone.rank_eq (counted_prefix_read h.first_le) (nodup_read hids last)]
      exact PageRequest.rank_lt_length
        (Account.pairwise_listed (nodup_counted hids last) domain) hcounted
    rcases h.ends with hall | rfl
    · exact Nat.lt_of_lt_of_le hrank hall
    · rw [← h.total_eq] at hrank
      rw [Nat.mul_comm]
      exact Nat.lt_of_lt_of_le hrank hfits
  obtain ⟨n, hpos, hle, hstands⟩ := exists_stands hgrows hlast
  rw [h.count hids ha hof, List.countP_pos_iff]
  exact ⟨n, List.mem_range'_1.mpr ⟨hpos, by omega⟩, decide_eq_true hstands⟩

/-- It is billed once at most if nothing comes before it after it was read. -/
theorem count_le_one (h : i.Bills recorded domain size 1 last billed total)
    (hids : (recorded.map Account.id).Nodup) (ha : a ∈ recorded) (hof : a.isOf domain = true)
    (hnone : ∀ n, 0 < n → n ≤ last → Stands size (i.rankOn recorded domain a) n →
      Account.NoneBefore domain a (i.read recorded n) (i.read recorded last)) :
    billed.count a.id ≤ 1 := by
  have hkept : ∀ n ∈ List.range' 1 last,
      decide (Stands size (i.rankOn recorded domain a) n) = true →
        i.rankOn recorded domain a n = i.rankOn recorded domain a last := by
    intro n hn hstands
    obtain ⟨hpos, hlt⟩ := List.mem_range'_1.mp hn
    have hle : n ≤ last := by omega
    exact ((hnone n hpos hle (of_decide_eq_true hstands)).rank_eq (read_prefix_read hle)
      (nodup_read hids last)).symm
  rw [h.count hids ha hof]
  apply countP_le_one List.nodup_range'
  intro n hn m hm hstands hstands'
  apply eq_of_stands (of_decide_eq_true hstands) (of_decide_eq_true hstands')
  rw [hkept n hn hstands, hkept m hm hstands']

theorem total_eq_length (h : i.Bills recorded domain size 1 last billed total) :
    total = ((i.counted recorded last).filter (Account.isOf domain)).length :=
  h.total_eq.trans (length_scope last)

/-- The last page is the first one that covers the accounts counted for it. -/
theorem last_eq (h : i.Bills recorded domain size 1 last billed total) (n : Nat) (hn : 0 < n)
    (hle : n ≤ maxPage)
    (hgoes : ∀ k < n, 0 < k →
      k * size < ((i.counted recorded k).filter (Account.isOf domain)).length)
    (hends : ((i.counted recorded n).filter (Account.isOf domain)).length ≤ n * size) :
    last = n := by
  rcases Nat.lt_trichotomy last n with hlt | heq | hlt
  · have hmore := hgoes last hlt h.first_le
    have hlast := h.ends
    rw [length_scope] at hlast
    omega
  · exact heq
  · have hmore := h.goes n hn hlt
    rw [length_scope] at hmore
    omega

/-- What is billed, if for each page the accounts are put in order that are recorded when it is
read. -/
theorem billed_eq_of_sorted (h : i.Bills recorded domain size 1 last billed total)
    (hids : (recorded.map Account.id).Nodup) (sorted : Nat → List Account)
    (hsorted : ∀ n ∈ List.range' 1 last, (sorted n).Pairwise fun a b => a.id < b.id)
    (hperm : ∀ n ∈ List.range' 1 last,
      (sorted n).Perm ((i.read recorded n).filter (Account.isOf domain))) :
    billed = (List.range' 1 last).flatMap fun n =>
      (PageRequest.slice ⟨n, size⟩ (sorted n)).map Account.id := by
  rw [h.billed_eq, Nat.add_sub_cancel]
  apply List.flatMap_congr
  intro n hn
  rw [onPage_eq hids size n (hsorted n hn) (hperm n hn)]

/-- Where there are more accounts than the pages that can be counted hold, some are not billed. -/
theorem exists_not_billed (h : i.Bills recorded domain size 1 last billed total)
    (hids : (recorded.map Account.id).Nodup) (hmany : maxPage * size < recorded.length) :
    ∃ a ∈ recorded, a.id ∉ billed := by
  have hbilled : billed.length ≤ maxPage * size := by
    rw [h.billed_eq, Nat.add_sub_cancel]
    have hpages : ∀ n ∈ List.range' 1 last,
        ((i.onPage recorded domain size n).map Account.id).length ≤ size := by
      intro n _
      rw [List.length_map]
      exact List.length_take_le _ _
    have hall := length_flatMap_le hpages
    rw [List.length_range'] at hall
    exact Nat.le_trans hall (Nat.mul_le_mul_right size h.last_le)
  by_contra hnone
  have hsubset : recorded.map Account.id ⊆ billed := by
    intro id hid
    obtain ⟨a, ha, rfl⟩ := List.mem_map.mp hid
    by_contra hmissing
    exact hnone ⟨a, ha, hmissing⟩
  have hlength := (List.subperm_of_subset hids hsubset).length_le
  rw [List.length_map] at hlength
  omega

end Bills

end Enrolment

/-! ## Pages -/

namespace Report

variable {i : Enrolment} {config : Config} {window : Window} {recorded : List Account}
  {domain : Option String} {start stop : Int64} {size n : Nat} {s t : Database}
  {listing : Listing AccountCustody}

/-- A report comes to what it ensures, and leaves what its questions keep. -/
theorem ends_of_keeps {α : Type} {C : Contract} {Inv : Session Database → Prop}
    (hkeeps : Dialogue.Keeps C i.Answered Inv) {report : Attempt α} {post : α → Prop}
    {fail : Error → Prop} (hreport : report.Ensures C post fail) (s : Database)
    (hs : Inv ⟨.empty, s⟩) :
    Attempt.Ends post fail ((runOn i.stores report).run s).1 ∧
      ∃ memo, Inv ⟨memo, ((runOn i.stores report).run s).2⟩ := by
  have hstep : ∀ s q, i.Answered s q ((Session.answer i.stores q).run s).1
      ((Session.answer i.stores q).run s).2 := fun _ _ => rfl
  obtain ⟨hends, hinv⟩ := Dialogue.Ensures.of_runsTo hkeeps hreport
    (Dialogue.runsTo_run hstep report.run ⟨.empty, s⟩) hs
  exact ⟨hends, _, hinv⟩

/-- The totals are those of the accounts listed, one by one, and accounts stay as they are. -/
theorem accounts_of_walkListed (hconfig : config.check = .ok ()) (hwindow : window.Valid)
    {listed : Listing Account} (hs : s.Enrols recorded)
    (h : (runOn i.stores (walkListed config window listed)).run s = (.ok listing, t)) :
    listing.total = listed.total ∧
      listing.items.map AccountCustody.account = listed.items.map Account.id ∧
      t.Enrols recorded := by
  have hwalks : (walkListed config window listed).Ensures Enrolment.usableRates
      (fun totals => totals.total = listed.total ∧
        List.Forall₂ (fun a custody => custody.account = Account.id a) listed.items totals.items)
      fun _ => True := by
    apply ensures_walkListed trivial
    intro a
    have hrun := Walk.moves_run (w := .make config window a) (R := ⟨fun _ => True, fun _ => True⟩)
      hwindow hconfig
    have helsewhere : ∀ q, Walk.Asks q → Enrolment.Elsewhere q := by
      intro q hq
      cases q with
      | accounts domain page => exact hq.elim
      | _ => exact trivial
    have hunder := Dialogue.Ensures.under (D := Enrolment.usableRates) hrun helsewhere
      fun _ _ ha => ha
    exact Attempt.Ensures.mono hunder (fun custody hcustody => hcustody.1) fun _ _ => trivial
  have hend := ends_of_keeps (i.keeps_usableRates recorded) hwalks s ⟨RateMemo.usable_empty, hs⟩
  rw [h] at hend
  obtain ⟨⟨htotal, hitems⟩, memo, -, ht⟩ := hend
  refine ⟨htotal, ?_, ht⟩
  have hids : List.Forall₂ (· = ·) (listing.items.map AccountCustody.account)
      (listed.items.map Account.id) := by
    rw [List.forall₂_map_left_iff, List.forall₂_map_right_iff]
    exact hitems.flip
  exact List.forall₂_eq_eq_eq ▸ hids

/-- A page that is reported on has the accounts listed on it when it was read, and the number of
those that were counted. -/
theorem accounts_of_enrolment (hconfig : config.check = .ok ())
    (hs : s.Enrols (i.read recorded (n - 1)))
    (h : (runOn i.stores (accounts config domain start stop ⟨n, size⟩)).run s = (.ok listing, t)) :
    0 < n ∧ 0 < size ∧ listing.total = (i.scope recorded domain n).length ∧
      listing.items.map AccountCustody.account =
        (i.onPage recorded domain size n).map Account.id ∧
      t.Enrols (i.read recorded n) := by
  rcases hmade : Window.make start stop with e | window
  · rw [(runOn_of_error i.stores (accounts_run_of_window hmade domain _) s).1] at h
    cases h
  rcases hpage : (PageRequest.mk n size).check with e | ⟨⟩
  · rw [(runOn_of_error i.stores (accounts_run_of_page hmade hpage domain) s).1] at h
    cases h
  obtain ⟨hnumber, hsize⟩ := (PageRequest.check_eq_ok_iff _).mp hpage
  have hlisted : (i.listAccounts domain ⟨n, size⟩).run s = _ :=
    Enrolment.run_listAccounts hs hpage
  rw [runOn_accounts hmade hpage hlisted] at h
  obtain ⟨htotal, haccounts, ht⟩ := accounts_of_walkListed hconfig (Window.make_eq_ok hmade).2
    (hs.withAccounts (i.read recorded n)) h
  exact ⟨hnumber, hsize, htotal, haccounts, ht⟩

/-- Where there are no transfers every page is reported on. -/
theorem exists_accounts_of_idle (hconfig : config.check = .ok ())
    (hwindow : (Window.mk start stop).Valid) (hnumber : 0 < n) (hsize : 0 < size)
    (hs : s.Enrols (i.read recorded (n - 1))) (hidle : s.tables.transfers = some []) :
    ∃ listing t,
      (runOn i.stores (accounts config domain start stop ⟨n, size⟩)).run s = (.ok listing, t) ∧
        t.Enrols (i.read recorded n) ∧ t.tables.transfers = some [] := by
  have hpage : (PageRequest.mk n size).check = .ok () :=
    (PageRequest.check_eq_ok_iff _).mpr ⟨hnumber, hsize⟩
  have hmade := Window.make_of_valid hwindow
  let listed : Listing Account := ⟨i.onPage recorded domain size n, (i.scope recorded domain n).length⟩
  have hlisted : (i.stores.accounts domain ⟨n, size⟩).run s =
      (.ok listed, s.withAccounts (i.read recorded n)) := Enrolment.run_listAccounts hs hpage
  have hwalks : (walkListed config ⟨start, stop⟩ listed).Ensures Enrolment.idle _ fun _ => False :=
    ensures_walkListed trivial fun a =>
      Walk.idle_run (w := .make config ⟨start, stop⟩ a) hconfig
  have hkept : (s.withAccounts (i.read recorded n)).tables.transfers = some [] := hidle
  obtain ⟨hends, memo, ht⟩ :=
    ends_of_keeps i.keeps_idle hwalks (s.withAccounts (i.read recorded n)) hkept
  rw [← runOn_accounts hmade hpage hlisted] at hends ht
  rcases hresult : (runOn i.stores (accounts config domain start stop ⟨n, size⟩)).run s with
    ⟨e | listing, t⟩
  · rw [hresult] at hends
    exact hends.elim
  · rw [hresult] at ht
    obtain ⟨-, -, -, -, henrols⟩ := accounts_of_enrolment hconfig hs hresult
    exact ⟨listing, t, rfl, henrols, ht⟩

end Report

namespace Command

variable {i : Enrolment} {config : Config} {recorded : List Account} {domain : Option String}
  {start stop : Int64} {size n : Nat} {s u : Database} {pages : List (Page AccountCustody)}

/-! ## Statements -/

/-- Reports on the pages of the accounts of a domain, or of all accounts, while batches are
recorded. -/
abbrev reportUnder (i : Enrolment) (config : Config) (domain : Option String)
    (start stop : Int64) : PageReport Database := fun request =>
  Report.runOn i.stores (Report.accounts config domain start stop request)

/-- Pages that are collected bill the accounts that stand on them, each as it was read. -/
theorem Collects.bills (hconfig : config.check = .ok ()) (hn : n ≤ maxPage)
    (h : Collects (reportUnder i config domain start stop) size n s pages u)
    (hs : s.Enrols (i.read recorded (n - 1))) :
    ∃ last, i.Bills recorded domain size n last
      ((pages.flatMap Page.items).map AccountCustody.account)
      ((pages.getLast?.map Page.total).getD 0) := by
  induction h with
  | @last n s u listing reported ends =>
    obtain ⟨hnumber, hsize, htotal, hitems, -⟩ := Report.accounts_of_enrolment hconfig hs reported
    refine ⟨n, hsize, hnumber, Nat.le_refl n, hn, fun k hk hlt => by omega, ?_, htotal, ?_⟩
    · rw [← htotal]
      exact (Page.total_le_of_last hsize ends).imp_right fun hmax => Nat.le_antisymm hn hmax
    · rw [Nat.add_sub_cancel_left, List.range'_one, List.flatMap_singleton, List.flatMap_singleton]
      exact hitems
  | @next n s t u listing pages reported goes rest ih =>
    obtain ⟨hnumber, hsize, htotal, hitems, ht⟩ := Report.accounts_of_enrolment hconfig hs reported
    have hnext : n < maxPage := Page.number_lt_maxPage goes
    obtain ⟨last, hrest⟩ := ih hnext ht
    have hfirst : n < last := hrest.first_le
    refine ⟨last, hsize, hnumber, Nat.le_of_lt hfirst, hrest.last_le, fun k hk hlt => ?_,
      hrest.ends, ?_, ?_⟩
    · rcases Nat.eq_or_lt_of_le hk with rfl | hk
      · rw [← htotal]
        exact Page.lt_total_of_hasNext hsize goes
      · exact hrest.goes k hk hlt
    · rw [← hrest.total_eq]
      rcases pages with _ | ⟨page, pages⟩
      · cases rest
      · rw [List.getLast?_cons_cons]
    · have hrange : List.range' n (last + 1 - n) = n :: List.range' (n + 1) (last + 1 - (n + 1)) := by
        rw [show last + 1 - n = last + 1 - (n + 1) + 1 by omega, List.range'_succ]
      rw [hrange, List.flatMap_cons, List.flatMap_cons, List.map_append, hrest.billed_eq]
      exact congrArg (· ++ _) hitems

/-- A statement over all pages bills the accounts of page after page. -/
theorem bills_of_run {c : Command} {statement : Statement} (hconfig : config.check = .ok ())
    (hs : s.Enrols recorded) (hpage : c.page = none)
    (h : (c.pagedStatement i.stores config domain).run.run s = (.ok statement, u)) :
    ∃ last, i.Bills recorded domain (c.sizeIn config) 1 last
      (statement.accounts.map AccountCustody.account) statement.total := by
  obtain ⟨pages, rfl, hcollects⟩ := (pagedStatement_eq_ok_iff hpage).mp h
  exact hcollects.bills hconfig (by decide) hs

/-- Where there are no transfers the statement over all pages is given. -/
theorem exists_statement_of_idle (i : Enrolment) {c : Command} (hconfig : config.check = .ok ())
    (hwindow : (Window.mk c.start c.stop).Valid) (hs : s.Enrols recorded)
    (hidle : s.tables.transfers = some []) (hpage : c.page = none) (hsize : 0 < c.sizeIn config) :
    ∃ statement u, (c.pagedStatement i.stores config domain).run.run s = (.ok statement, u) := by
  let Inv : Nat → Database → Prop := fun n s =>
    s.Enrols (i.read recorded (n - 1)) ∧ s.tables.transfers = some []
  have hstart : Inv 1 s := ⟨hs, hidle⟩
  have hreport : ∀ n s, 0 < n → Inv n s → ∃ listing t,
      (reportUnder i config domain c.start c.stop ⟨n, c.sizeIn config⟩).run s = (.ok listing, t) ∧
        Inv (n + 1) t := by
    intro n s hn hinv
    exact Report.exists_accounts_of_idle hconfig hwindow hn hsize hinv.1 hinv.2
  obtain ⟨pages, u, hcollects⟩ := exists_collects_of_ok hreport 1 Nat.one_pos s hstart
  exact ⟨_, u, (pagedStatement_eq_ok_iff hpage).mpr ⟨pages, rfl, hcollects⟩⟩

/-- A database of accounts without transfers. -/
def accountsOnly (recorded : List Account) : Database :=
  .ofTables ⟨some (recorded.map AccountRow.ofAccount), some [], some [], some [], true⟩

/-- The statement on all accounts, one on a page. -/
def oneByOne : Command := ⟨.system, 20, 100, none, some 1⟩

theorem exists_oneByOne (i : Enrolment) (recorded : List Account) :
    ∃ statement u, (oneByOne.pagedStatement i.stores .default none).run.run
      (accountsOnly recorded) = (.ok statement, u) := by
  have hs : (accountsOnly recorded).Enrols recorded := ⟨rfl, rfl⟩
  exact exists_statement_of_idle i (by decide) (by decide) hs rfl rfl (by decide)

theorem exists_oneByOne_bills (i : Enrolment) (recorded : List Account) :
    ∃ statement u last, (oneByOne.pagedStatement i.stores .default none).run.run
        (accountsOnly recorded) = (.ok statement, u) ∧
      i.Bills recorded none 1 1 last (statement.accounts.map AccountCustody.account)
        statement.total := by
  obtain ⟨statement, u, h⟩ := exists_oneByOne i recorded
  obtain ⟨last, hbills⟩ := bills_of_run (by decide) ⟨rfl, rfl⟩ rfl h
  exact ⟨statement, u, last, h, hbills⟩

/-- Whatever accounts are recorded meanwhile, a statement over all pages bills an account that was
recorded beforehand once for each page that its rank falls on when that page is read. So it bills
the account unless another one is recorded before it between the count and the reading of the last
page, or the pages cannot be counted in 32 bits; and it does so once only unless another one is
recorded before it after a page that it stands on was read. Full ids are the key of the table, and
so distinct. -/
theorem statement_under_enrolment (i : Enrolment) {c : Command} {statement : Statement}
    (hconfig : config.check = .ok ()) (hs : s.Enrols recorded)
    (hids : (recorded.map Account.id).Nodup) (hpage : c.page = none)
    (h : (c.pagedStatement i.stores config domain).run.run s = (.ok statement, u)) :
    let size := c.sizeIn config
    let billed := statement.accounts.map AccountCustody.account
    ∃ last, i.Bills recorded domain size 1 last billed statement.total ∧
      ∀ a ∈ recorded, a.isOf domain = true →
        billed.count a.id = (List.range' 1 last).countP
          (fun n => decide (Stands size (i.rankOn recorded domain a) n)) ∧
        (statement.total ≤ size * maxPage →
          Account.NoneBefore domain a (i.counted recorded last) (i.read recorded last) →
          0 < billed.count a.id) ∧
        ((∀ n, 0 < n → n ≤ last → Stands size (i.rankOn recorded domain a) n →
          Account.NoneBefore domain a (i.read recorded n) (i.read recorded last)) →
          billed.count a.id ≤ 1) := by
  intro size billed
  obtain ⟨last, hbills⟩ := bills_of_run hconfig hs hpage h
  refine ⟨last, hbills, fun a ha hof => ⟨hbills.count hids ha hof, ?_, ?_⟩⟩
  · exact hbills.count_pos hids ha hof
  · exact hbills.count_le_one hids ha hof

/-- An account of the bank. -/
def sampleAccount (name : String) : Account := ⟨name, "bank"⟩

/-- A batch of one account, before the accounts of the second page are counted. -/
def recordedBefore (name : String) : Enrolment :=
  ⟨fun n => if n = 2 then [[sampleAccount name]] else [], fun _ => []⟩

/-- Where an account is recorded that comes last, those recorded beforehand are billed once each. -/
theorem sample_statement_under_enrolment :
    ∃ statement u, (oneByOne.pagedStatement (recordedBefore "d").stores .default none).run.run
        (accountsOnly (["b", "c"].map sampleAccount)) = (.ok statement, u) ∧
      statement.total = 3 ∧
      ∀ name ∈ ["b", "c"],
        (statement.accounts.map AccountCustody.account).count (sampleAccount name).id = 1 := by
  obtain ⟨statement, u, h⟩ := exists_oneByOne (recordedBefore "d") (["b", "c"].map sampleAccount)
  have hs : (accountsOnly (["b", "c"].map sampleAccount)).Enrols (["b", "c"].map sampleAccount) :=
    ⟨rfl, rfl⟩
  obtain ⟨last, hbills, haccounts⟩ :=
    statement_under_enrolment (recordedBefore "d") (by decide) hs (by decide) rfl h
  have hlast : last = 3 :=
    hbills.last_eq 3 (by decide) (by decide) (by decide +kernel) (by decide +kernel)
  subst hlast
  have htotal : statement.total = 3 := hbills.total_eq_length.trans (by decide +kernel)
  refine ⟨statement, u, h, htotal, fun name hname => ?_⟩
  obtain ⟨-, hpos, hone⟩ := haccounts (sampleAccount name) (List.mem_map_of_mem hname) rfl
  have hearly : ∀ name ∈ ["b", "c"],
      ∀ b ∈ (recordedBefore "d").read (["b", "c"].map sampleAccount) 3,
        b.id < (sampleAccount name).id → b ∈ ["b", "c"].map sampleAccount := by decide +kernel
  apply Nat.le_antisymm
  · apply hone
    intro n _ _ _ b hb _ hlt
    exact (Enrolment.read_prefix_read (Nat.zero_le n)).subset (hearly name hname b hb hlt)
  · apply hpos
    · rw [htotal]
      decide
    · exact fun _ hb _ _ => hb

/-- A batch of one account, between the count and the reading of the first page. -/
def recordedBetween (name : String) : Enrolment :=
  ⟨fun _ => [], fun n => if n = 1 then [[sampleAccount name]] else []⟩

/-- Accounts with longer and longer names. -/
def manyAccounts (n : Nat) : List Account :=
  (List.range n).map fun k => sampleAccount (String.ofList (List.replicate (k + 1) 'a'))

theorem nodup_manyAccounts (n : Nat) : ((manyAccounts n).map Account.id).Nodup := by
  unfold manyAccounts
  rw [List.map_map]
  apply List.Nodup.map _ List.nodup_range
  intro k l h
  have hlength := congrArg (fun id => id.toList.length) h
  simpa [sampleAccount, Account.id] using hlength

/-- Where an account is recorded that comes first, one that was recorded beforehand is billed twice,
or not at all; and of more accounts than there are pages to be counted one is not billed. -/
theorem statement_repeats_and_misses :
    (∃ statement u, (oneByOne.pagedStatement (recordedBefore "a").stores .default none).run.run
        (accountsOnly (["b", "c"].map sampleAccount)) = (.ok statement, u) ∧
      statement.accounts.map AccountCustody.account = ["b@bank", "b@bank", "c@bank"]) ∧
    (∃ statement u, (oneByOne.pagedStatement (recordedBetween "a").stores .default none).run.run
        (accountsOnly (["b"].map sampleAccount)) = (.ok statement, u) ∧
      statement.accounts.map AccountCustody.account = ["a@bank"]) ∧
    ∃ statement u, (oneByOne.pagedStatement Database.stores .default none).run.run
        (accountsOnly (manyAccounts (maxPage + 1))) = (.ok statement, u) ∧
      ∃ a ∈ manyAccounts (maxPage + 1),
        a.id ∉ statement.accounts.map AccountCustody.account := by
  refine ⟨?_, ?_, ?_⟩
  · obtain ⟨statement, u, last, h, hbills⟩ :=
      exists_oneByOne_bills (recordedBefore "a") (["b", "c"].map sampleAccount)
    have hlast : last = 3 :=
      hbills.last_eq 3 (by decide) (by decide) (by decide +kernel) (by decide +kernel)
    subst hlast
    have hbilled := hbills.billed_eq_of_sorted (by decide)
      (fun n => (if n = 1 then ["b", "c"] else ["a", "b", "c"]).map sampleAccount)
      (by decide +kernel) (by decide +kernel)
    exact ⟨statement, u, h, hbilled.trans (by decide +kernel)⟩
  · obtain ⟨statement, u, last, h, hbills⟩ :=
      exists_oneByOne_bills (recordedBetween "a") (["b"].map sampleAccount)
    have hlast : last = 1 :=
      hbills.last_eq 1 (by decide) (by decide) (by decide +kernel) (by decide +kernel)
    subst hlast
    have hbilled := hbills.billed_eq_of_sorted (by decide) (fun _ => ["a", "b"].map sampleAccount)
      (by decide +kernel) (by decide +kernel)
    exact ⟨statement, u, h, hbilled.trans (by decide +kernel)⟩
  · rw [← Enrolment.stores_quiet]
    obtain ⟨statement, u, last, h, hbills⟩ :=
      exists_oneByOne_bills .quiet (manyAccounts (maxPage + 1))
    have hmany : maxPage * 1 < (manyAccounts (maxPage + 1)).length := by
      unfold manyAccounts
      rw [List.length_map, List.length_range, Nat.mul_one]
      exact Nat.lt_succ_self maxPage
    exact ⟨statement, u, h, hbills.exists_not_billed (nodup_manyAccounts _) hmany⟩

end Command

end Custodian
