import Custodian.Proofs.Cli.Collection
import Custodian.Proofs.Replay.Agreement

/-!
# Paging does not show in a statement

On accounts that stay as they are, a statement over all pages has one entry for each account in
scope, in the order of the ids (`Command.items_of_all_pages`), whatever the size of the pages;
statements on single pages are its parts (`Command.statement_independent_of_paging`). Reports leave
snapshots behind, so each page finds a database of its own: what carries the argument is that every
page comes to what the walks over its accounts come to as look-ups stood at first
(`Report.IsItem`), and that these results do not depend on the page.
-/

namespace Custodian

namespace Command

variable {config : Config} {window : Window} {db s u : Database} {recorded : List Account}
  {domain : Option String} {size n : Nat} {pages : List (Page AccountCustody)}

/-- Reports on the pages of the accounts of a domain, or of all accounts. -/
abbrev reportOn (config : Config) (window : Window) (domain : Option String) :
    PageReport Database := fun request =>
  Report.runOn Database.stores
    (Report.accounts config domain window.start window.stop request)

theorem ends_of_reportOn {request : PageRequest} {result : Except Error (Listing AccountCustody)}
    (h : (reportOn config window domain request).run s = (result, u)) :
    Report.Ends (Report.accounts config domain window.start window.stop request) s result u := by
  have hends := Report.ends_runOn
    (Report.accounts config domain window.start window.stop request) s
  have h' : (Report.runOn Database.stores
    (Report.accounts config domain window.start window.stop request)).run s = (result, u) := h
  rwa [h'] at hends

/-- The pages from some page on have the accounts that are listed from there on, and the last one
tells how many accounts and pages there are in all. -/
theorem Collects.items (hconfig : config.check = .ok ()) (hwindow : window.Valid)
    (hrecorded : db.tables.accounts = some (recorded.map AccountRow.ofAccount))
    (hfits : (Account.listed recorded domain).length ≤ size * maxPage)
    (h : Collects (reportOn config window domain) size n s pages u)
    (hlater : Report.Later config window db s) :
    0 < size ∧ List.Forall₂ (Report.IsItem config window db recorded)
        ((Account.listed recorded domain).drop ((n - 1) * size)) (pages.flatMap Page.items) ∧
      pages.getLast?.map Page.total = some (Account.listed recorded domain).length ∧
      pages.getLast?.map Page.pages =
        some (Page.countPages size (Account.listed recorded domain).length) := by
  induction h with
  | @last n s u listing reported ends =>
    obtain ⟨hnumber, hsize, htotal, hitems⟩ :=
      Report.accounts_of_later hconfig hwindow hrecorded hlater (ends_of_reportOn reported)
    have hrest : PageRequest.slice ⟨n, size⟩ (Account.listed recorded domain) ++
        (Account.listed recorded domain).drop (n * size) =
        (Account.listed recorded domain).drop ((n - 1) * size) :=
      PageRequest.slice_append_drop ⟨n, size⟩ hnumber _
    have hall : (Account.listed recorded domain).length ≤ n * size := by
      rw [← htotal]
      rcases Page.total_le_of_last hsize ends with hle | hmax
      · exact hle
      · rw [← htotal, Nat.mul_comm] at hfits
        exact Nat.le_trans hfits (Nat.mul_le_mul_right size hmax)
    rw [List.drop_of_length_le hall, List.append_nil] at hrest
    refine ⟨hsize, ?_, congrArg some htotal, ?_⟩
    · rw [List.flatMap_singleton, ← hrest]
      exact hitems
    · show some (Page.countPages size listing.total) = _
      rw [htotal]
  | @next n s t u listing pages reported goes rest ih =>
    have hends := ends_of_reportOn reported
    obtain ⟨hnumber, hsize, htotal, hitems⟩ :=
      Report.accounts_of_later hconfig hwindow hrecorded hlater hends
    obtain ⟨-, hothers, hlast⟩ := ih (hlater.tail (.accounts domain _ _ hends))
    have hrest : PageRequest.slice ⟨n, size⟩ (Account.listed recorded domain) ++
        (Account.listed recorded domain).drop (n * size) =
        (Account.listed recorded domain).drop ((n - 1) * size) :=
      PageRequest.slice_append_drop ⟨n, size⟩ hnumber _
    refine ⟨hsize, ?_, ?_⟩
    · rw [List.flatMap_cons, ← hrest]
      exact List.rel_append hitems hothers
    · rcases pages with _ | ⟨page, pages⟩
      · cases hlast.1
      · rw [List.getLast?_cons_cons]
        exact hlast

/-- Where the walks over all accounts in scope succeed the pages from any page on are collected. -/
theorem exists_collects {items : List AccountCustody} (hconfig : config.check = .ok ())
    (hwindow : window.Valid)
    (hrecorded : db.tables.accounts = some (recorded.map AccountRow.ofAccount))
    (hitems : List.Forall₂ (Report.IsItem config window db recorded)
      (Account.listed recorded domain) items) (hsize : 0 < size) (n : Nat) (hn : 0 < n)
    (s : Database) (hlater : Report.Later config window db s) :
    ∃ pages u, Collects (reportOn config window domain) size n s pages u := by
  let Inv : Nat → Database → Prop := fun _ s => Report.Later config window db s
  have hstart : Inv n s := hlater
  refine exists_collects_of_ok (fun n s hn hlater => ?_) n hn s hstart
  have hrequest : (PageRequest.mk n size).check = .ok () :=
    (PageRequest.check_eq_ok_iff _).mpr ⟨hn, hsize⟩
  rcases hreport : (reportOn config window domain ⟨n, size⟩).run s with ⟨result, t⟩
  have hends := ends_of_reportOn hreport
  obtain rfl := Report.accounts_of_items hconfig hwindow hrecorded hlater hrequest hitems hends
  exact ⟨_, t, rfl, hlater.tail (.accounts domain _ _ hends)⟩

/-! ## Statements -/

/-- The same command with other options for its pages. -/
def paged (c : Command) (page pageSize : Option Nat) : Command :=
  { c with page := page, pageSize := pageSize }

/-- A statement over all pages has the totals of all accounts in scope, and their number. -/
theorem items_of_all_pages {c : Command} {statement : Statement} (hconfig : config.check = .ok ())
    (hwindow : (Window.mk c.start c.stop).Valid)
    (hrecorded : db.tables.accounts = some (recorded.map AccountRow.ofAccount))
    (hfits : (Account.listed recorded domain).length ≤ c.sizeIn config * maxPage)
    (hlater : Report.Later config ⟨c.start, c.stop⟩ db s) (hpage : c.page = none)
    (h : (c.pagedStatement Database.stores config domain).run.run s = (.ok statement, u)) :
    0 < c.sizeIn config ∧
      List.Forall₂ (Report.IsItem config ⟨c.start, c.stop⟩ db recorded)
        (Account.listed recorded domain) statement.accounts ∧
      statement.total = (Account.listed recorded domain).length ∧
      statement.pages =
        Page.countPages (c.sizeIn config) (Account.listed recorded domain).length := by
  obtain ⟨pages, rfl, hcollects⟩ := (pagedStatement_eq_ok_iff hpage).mp h
  obtain ⟨hsize, hitems, htotal, hpages⟩ :=
    hcollects.items hconfig hwindow hrecorded hfits hlater
  refine ⟨hsize, ?_, ?_, ?_⟩
  · rwa [Nat.sub_self, Nat.zero_mul, List.drop_zero] at hitems
  · show (pages.getLast?.map Page.total).getD 0 = _
    rw [htotal]
    rfl
  · show (pages.getLast?.map Page.pages).getD 0 = _
    rw [hpages]
    rfl

/-- Where the walks over all accounts in scope succeed so does the statement over all pages. -/
theorem exists_statement_of_items {c : Command} {items : List AccountCustody}
    (hconfig : config.check = .ok ()) (hwindow : (Window.mk c.start c.stop).Valid)
    (hrecorded : db.tables.accounts = some (recorded.map AccountRow.ofAccount))
    (hitems : List.Forall₂ (Report.IsItem config ⟨c.start, c.stop⟩ db recorded)
      (Account.listed recorded domain) items)
    (hlater : Report.Later config ⟨c.start, c.stop⟩ db s) (hpage : c.page = none)
    (hsize : 0 < c.sizeIn config) :
    ∃ statement u,
      (c.pagedStatement Database.stores config domain).run.run s = (.ok statement, u) := by
  obtain ⟨pages, u, hcollects⟩ :=
    exists_collects hconfig hwindow hrecorded hitems hsize 1 Nat.one_pos s hlater
  exact ⟨_, u, (pagedStatement_eq_ok_iff hpage).mpr ⟨pages, rfl, hcollects⟩⟩

/-- Where a statement over all pages succeeds so does one on any page, and it has the entries of
that page. -/
theorem statement_of_page {c : Command} {items : List AccountCustody}
    (hconfig : config.check = .ok ()) (hwindow : (Window.mk c.start c.stop).Valid)
    (hrecorded : db.tables.accounts = some (recorded.map AccountRow.ofAccount))
    (hitems : List.Forall₂ (Report.IsItem config ⟨c.start, c.stop⟩ db recorded)
      (Account.listed recorded domain) items)
    (hlater : Report.Later config ⟨c.start, c.stop⟩ db s) (hpage : c.page = some n) (hn : 0 < n)
    (hsize : 0 < c.sizeIn config) :
    ((c.pagedStatement Database.stores config domain).run.run s).1 =
      .ok ⟨PageRequest.slice ⟨n, c.sizeIn config⟩ items, (Account.listed recorded domain).length,
        Page.countPages (c.sizeIn config) (Account.listed recorded domain).length⟩ := by
  have hrequest : (PageRequest.mk n (c.sizeIn config)).check = .ok () :=
    (PageRequest.check_eq_ok_iff _).mpr ⟨hn, hsize⟩
  rcases hreport : (reportOn config ⟨c.start, c.stop⟩ domain ⟨n, c.sizeIn config⟩).run s with
    ⟨result, t⟩
  have hresult := Report.accounts_of_items hconfig hwindow hrecorded hlater hrequest hitems
    (ends_of_reportOn hreport)
  rw [hresult] at hreport
  have hpages : (collectPages (reportOn config ⟨c.start, c.stop⟩ domain) (some n)
      (c.sizeIn config)).run.run s = (.ok [.ofListing ⟨n, c.sizeIn config⟩ _], t) :=
    run_bind_of_ok hreport
  unfold pagedStatement
  rw [hpage]
  refine (congrArg Prod.fst (run_bind_of_ok hpages)).trans ?_
  show Except.ok (Statement.mk (List.flatMap Page.items [_]) _ _) = _
  rw [List.flatMap_singleton]
  rfl

/-- On accounts that stay as they are, a statement over all pages has one entry for each account
in scope, in the order of the ids, and tells how many accounts and pages there are. The entries are
the same for every size of pages, and are those of the statements on the single pages one after
another; behind the last page there are none. The offset of a page that there is does not exceed
the number of accounts; that of a page behind the last one has to be in range. Each statement may
be asked for whenever, other reports over the window in between. -/
theorem statement_independent_of_paging {c : Command} {statement : Statement}
    (hconfig : config.check = .ok ()) (hwindow : (Window.mk c.start c.stop).Valid)
    (hrecorded : db.tables.accounts = some (recorded.map AccountRow.ofAccount))
    (hids : (recorded.map Account.id).Nodup)
    (hfits : (Account.listed recorded domain).length < c.sizeIn config * maxPage)
    (hlater : Report.Later config ⟨c.start, c.stop⟩ db s) (hpage : c.page = none)
    (h : (c.pagedStatement Database.stores config domain).run.run s = (.ok statement, u)) :
    let scope := Account.listed recorded domain
    (scope.Pairwise fun a b => a.id < b.id) ∧
    (∀ a, a ∈ scope ↔ a ∈ recorded ∧ ∀ name ∈ domain, a.domain = name) ∧
    statement.accounts.map AccountCustody.account = scope.map Account.id ∧
    statement.total = scope.length ∧
    statement.pages = (scope.length + c.sizeIn config - 1) / c.sizeIn config ∧
    (∀ pageSize s' u' statement', Report.Later config ⟨c.start, c.stop⟩ db s' →
      scope.length < (c.paged none pageSize).sizeIn config * maxPage →
      ((c.paged none pageSize).pagedStatement Database.stores config domain).run.run s' =
        (.ok statement', u') →
      statement'.accounts = statement.accounts) ∧
    ∃ single : Nat → Statement,
      (∀ n s', 0 < n → (n ≤ statement.pages ∨ (PageRequest.mk n (c.sizeIn config)).InRange) →
        Report.Later config ⟨c.start, c.stop⟩ db s' →
        (((c.paged (some n) c.pageSize).pagedStatement Database.stores config domain).run.run s').1 =
          .ok (single n)) ∧
      (∀ n ≤ statement.pages, (PageRequest.mk n (c.sizeIn config)).offset ≤ scope.length) ∧
      ((List.range' 1 statement.pages).flatMap fun n => (single n).accounts) =
        statement.accounts ∧
      ∀ n, statement.pages < n →
        (single n).accounts = [] ∧ (single n).total = statement.total := by
  intro scope
  obtain ⟨hsize, hitems, htotal, hpages⟩ :=
    items_of_all_pages hconfig hwindow hrecorded hfits.le hlater hpage h
  have hlength : statement.accounts.length = scope.length := hitems.length_eq.symm
  have hall : scope.length ≤ statement.pages * c.sizeIn config := by
    rw [hpages]
    exact Page.le_countPages_mul hsize hfits.le
  refine ⟨Account.pairwise_listed hids domain, fun a => ?_, ?_, htotal, ?_, ?_, ?_⟩
  · rw [Account.mem_listed]
    cases domain <;> simp [Account.isOf]
  · have haccounts : List.Forall₂ (· = ·) (statement.accounts.map AccountCustody.account)
        (scope.map Account.id) := by
      rw [List.forall₂_map_left_iff, List.forall₂_map_right_iff]
      exact hitems.flip.imp fun item a h => h.account
    exact List.forall₂_eq_eq_eq ▸ haccounts
  · rw [hpages]
    exact Page.countPages_of_le hsize hfits.le
  · intro pageSize s' u' statement' hlater' hfits' h'
    obtain ⟨-, hitems', -⟩ := items_of_all_pages (c := c.paged none pageSize) hconfig hwindow
      hrecorded hfits'.le hlater' rfl h'
    exact Report.IsItem.unique hitems' hitems
  · refine ⟨fun n => ⟨PageRequest.slice ⟨n, c.sizeIn config⟩ statement.accounts, scope.length,
      Page.countPages (c.sizeIn config) scope.length⟩, fun n s' hn _ hlater' => ?_,
      fun n hn => ?_, ?_, fun n hn => ?_⟩
    · exact statement_of_page (c := c.paged (some n) c.pageSize) hconfig hwindow hrecorded hitems
        hlater' rfl hn hsize
    · exact Page.offset_le_of_le_countPages hsize (hpages ▸ hn)
    · rw [PageRequest.flatMap_slice, List.take_of_length_le (hlength ▸ hall)]
    · refine ⟨PageRequest.slice_eq_nil _ ?_, htotal.symm⟩
      have hbehind : statement.pages * c.sizeIn config ≤ (n - 1) * c.sizeIn config :=
        Nat.mul_le_mul_right _ (Nat.le_sub_one_of_lt hn)
      exact hlength ▸ Nat.le_trans hall hbehind

/-- The statement on the bank has an account on each of its two pages and nobody on a third one;
on pages of five accounts it has the same accounts. -/
theorem statement_sample_independent_of_paging :
    let c : Command := ⟨.domain "bank", 20, 100, none, some 1⟩
    let run (c : Command) :=
      (c.pagedStatement Database.stores .default (some "bank")).run.run Sample.database
    (run c).1 = .ok ⟨[Sample.custody, Sample.debt], 2, 2⟩ ∧
      (run (c.paged none (some 5))).1 = .ok ⟨[Sample.custody, Sample.debt], 2, 1⟩ ∧
      ∃ single : Nat → Statement,
        (∀ n, 0 < n → n ≤ 3 → (run (c.paged (some n) (some 1))).1 = .ok (single n)) ∧
        (single 1).accounts ++ (single 2).accounts = [Sample.custody, Sample.debt] ∧
        (single 3).accounts = [] := by
  intro c run
  have hconfig : Config.default.check = .ok () := by decide
  have hwindow : (Window.mk 20 100).Valid := by decide
  have hrecorded : Sample.database.tables.accounts =
      some (Sample.recorded.map AccountRow.ofAccount) := rfl
  have hids : (Sample.recorded.map Account.id).Nodup := by decide
  have hfits : ∀ size, 0 < size →
      (Account.listed Sample.recorded (some "bank")).length < size * maxPage := by
    intro size hsize
    rw [Sample.listed_bank]
    exact Nat.lt_of_lt_of_le (by decide) (Nat.mul_le_mul_right maxPage hsize)
  obtain ⟨statement, u, hstatement⟩ := exists_statement_of_items (c := c) hconfig hwindow hrecorded
    Sample.isItem_bank .refl rfl (by decide)
  obtain ⟨wide, u', hwide⟩ := exists_statement_of_items (c := c.paged none (some 5)) hconfig hwindow
    hrecorded Sample.isItem_bank .refl rfl (by decide)
  have hone := statement_independent_of_paging (c := c) hconfig hwindow hrecorded hids
    (hfits 1 Nat.one_pos) .refl rfl hstatement
  have hfive := statement_independent_of_paging (c := c.paged none (some 5)) hconfig hwindow
    hrecorded hids (hfits 5 (by decide)) .refl rfl hwide
  obtain ⟨-, -, -, htotal, hpages, hsizes, single, hsingle, -, hconcat, hbehind⟩ := hone
  obtain ⟨-, -, -, htotal', hpages', -⟩ := hfive
  rw [Sample.listed_bank] at htotal hpages htotal' hpages'
  obtain ⟨-, hitems, -⟩ := items_of_all_pages (c := c) hconfig hwindow hrecorded
    (Nat.le_of_lt (hfits 1 Nat.one_pos)) .refl rfl hstatement
  have haccounts : statement.accounts = [Sample.custody, Sample.debt] :=
    Report.IsItem.unique hitems Sample.isItem_bank
  have hsame := hsizes (some 5) _ _ wide .refl (hfits 5 (by decide)) hwide
  have hnumber : statement.pages = 2 := hpages.trans (by decide)
  have hnumber' : wide.pages = 1 := hpages'.trans (by decide)
  refine ⟨?_, ?_, single, fun n hn hle => ?_, ?_, (hbehind 3 (by rw [hnumber]; decide)).1⟩
  · refine (congrArg Prod.fst hstatement).trans ?_
    show Except.ok (Statement.mk statement.accounts statement.total statement.pages) = _
    rw [haccounts, htotal, hnumber]
    rfl
  · refine (congrArg Prod.fst hwide).trans ?_
    show Except.ok (Statement.mk wide.accounts wide.total wide.pages) = _
    rw [hsame, haccounts, htotal', hnumber']
    rfl
  · refine hsingle n _ hn (.inr ?_) .refl
    show (n - 1) * 1 < 2 ^ (63 : Nat)
    omega
  · rw [hnumber, haccounts] at hconcat
    simpa [List.range'] using hconcat

end Command

end Custodian
