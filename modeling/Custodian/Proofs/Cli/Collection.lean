import Custodian.Cli.Run

/-!
# Collecting pages

A command without `--page` asks for page after page until one has no successor, whatever the
reports on them do to the state behind them: `Command.Collects` says what happens from some page
on, and every walk that succeeds is of that shape (`Command.collects_of_run`).
-/

namespace Custodian.Command

variable {σ α β : Type} {report : PageReport σ} {size : Nat}

/-- Where its first part succeeds a sequence goes on with its second part. -/
theorem run_bind_of_ok {x : ExceptT Error (StateM σ) α} {f : α → ExceptT Error (StateM σ) β}
    {a : α} {s t : σ} (h : x.run.run s = (.ok a, t)) :
    (x >>= f).run.run s = (f a).run.run t := by
  rw [ExceptT.run_bind, StateT.run_bind, h]
  rfl

/-- A sequence succeeds only if its first part does, and its second part does from there. -/
theorem run_bind_eq_ok {x : ExceptT Error (StateM σ) α} {f : α → ExceptT Error (StateM σ) β}
    {b : β} {s u : σ} (h : (x >>= f).run.run s = (.ok b, u)) :
    ∃ a t, x.run.run s = (.ok a, t) ∧ (f a).run.run t = (.ok b, u) := by
  rw [ExceptT.run_bind, StateT.run_bind] at h
  rcases hx : x.run.run s with ⟨e | a, t⟩
  · rw [hx] at h
    cases h
  · rw [hx] at h
    exact ⟨a, t, rfl, h⟩

/-- The pages from some page on, each reported on in the state that the one before it left, up to
the first one that has no successor. -/
inductive Collects (report : PageReport σ) (size : Nat) :
    Nat → σ → List (Page AccountCustody) → σ → Prop
  | last {n : Nat} {s t : σ} {listing : Listing AccountCustody}
      (reported : (report ⟨n, size⟩).run s = (.ok listing, t))
      (ends : (Page.ofListing ⟨n, size⟩ listing).hasNext ≠ true) :
      Collects report size n s [.ofListing ⟨n, size⟩ listing] t
  | next {n : Nat} {s t u : σ} {listing : Listing AccountCustody}
      {pages : List (Page AccountCustody)}
      (reported : (report ⟨n, size⟩).run s = (.ok listing, t))
      (goes : (Page.ofListing ⟨n, size⟩ listing).hasNext = true)
      (rest : Collects report size (n + 1) t pages u) :
      Collects report size n s (.ofListing ⟨n, size⟩ listing :: pages) u

/-- Pages that are collected are collected page by page. -/
theorem collects_of_run {n : Nat} {s u : σ} {pages : List (Page AccountCustody)}
    (h : (collectFrom report size n).run.run s = (.ok pages, u)) :
    Collects report size n s pages u := by
  unfold collectFrom at h
  obtain ⟨listing, t, hreported, h⟩ := run_bind_eq_ok h
  by_cases hnext : (Page.ofListing ⟨n, size⟩ listing).hasNext = true
  · simp only [dif_pos hnext] at h
    obtain ⟨others, v, hrest, h⟩ := run_bind_eq_ok h
    cases h
    exact .next hreported hnext (collects_of_run hrest)
  · simp only [dif_neg hnext] at h
    cases h
    exact .last hreported hnext
  termination_by maxPage - n
  decreasing_by
    have hlt : n < maxPage := Page.number_lt_maxPage hnext
    show maxPage - (n + 1) < maxPage - n
    omega

/-- Reports that succeed on page after page, up to one without a successor, are collected. -/
theorem Collects.run {n : Nat} {s u : σ} {pages : List (Page AccountCustody)}
    (h : Collects report size n s pages u) :
    (collectFrom report size n).run.run s = (.ok pages, u) := by
  induction h with
  | last reported ends =>
    unfold collectFrom
    refine (run_bind_of_ok reported).trans ?_
    simp only [dif_neg ends]
    rfl
  | next reported goes rest ih =>
    unfold collectFrom
    refine (run_bind_of_ok reported).trans ?_
    simp only [dif_pos goes]
    exact (run_bind_of_ok ih).trans rfl

/-- Where each page can be reported on in the state that the one before it leaves, the pages from
any page on are collected. -/
theorem exists_collects_of_ok {Inv : Nat → σ → Prop}
    (hreport : ∀ n s, 0 < n → Inv n s →
      ∃ listing t, (report ⟨n, size⟩).run s = (.ok listing, t) ∧ Inv (n + 1) t)
    (n : Nat) (hn : 0 < n) (s : σ) (hs : Inv n s) : ∃ pages u, Collects report size n s pages u := by
  obtain ⟨listing, t, hreported, ht⟩ := hreport n s hn hs
  by_cases hnext : (Page.ofListing ⟨n, size⟩ listing).hasNext = true
  · obtain ⟨pages, u, hrest⟩ := exists_collects_of_ok hreport (n + 1) (Nat.succ_pos n) t ht
    exact ⟨_, _, .next hreported hnext hrest⟩
  · exact ⟨_, _, .last hreported hnext⟩
  termination_by maxPage - n
  decreasing_by
    have hlt : n < maxPage := Page.number_lt_maxPage hnext
    show maxPage - (n + 1) < maxPage - n
    omega

/-- The number of accounts on a page. -/
def sizeIn (config : Config) (c : Command) : Nat := c.pageSize.getD config.accountPageSize

/-- A statement over all pages is made of the pages that are collected from the first one on. -/
theorem pagedStatement_eq_ok_iff {stores : Stores σ} {config : Config} {c : Command}
    {domain : Option String} {statement : Statement} {s u : σ} (hpage : c.page = none) :
    (c.pagedStatement stores config domain).run.run s = (.ok statement, u) ↔
      ∃ pages, statement = .ofPages pages ∧
        Collects (fun request =>
            Report.runOn stores (Report.accounts config domain c.start c.stop request))
          (c.sizeIn config) 1 s pages u := by
  unfold pagedStatement
  rw [hpage]
  constructor
  · intro h
    obtain ⟨pages, t, hcollected, h⟩ := run_bind_eq_ok h
    cases h
    exact ⟨pages, rfl, collects_of_run hcollected⟩
  · rintro ⟨pages, rfl, hcollects⟩
    exact run_bind_of_ok hcollects.run

end Custodian.Command
