import Custodian.Proofs.Database.Session
import Custodian.Proofs.Replay.Agreement
import Custodian.Proofs.Replay.ControlPoint

/-!
# What a report can fail with

Over any stores, whatever they hold and whenever they fail, a report fails with an error of its
arguments before anything is asked, with an error that the mirror of the ledger has answered with,
or with one of the directory of rates that concerns more than one asset
(`Report.control_points_and_failures`). Errors of snapshots and errors that concern one asset never
get through.

What the stores have answered with is known from a list of the calls that the report makes
(`Stores.overheard`, `Report.calls`), which changes nothing else (`Report.runOn_overheard`).
-/

namespace Custodian

/-! ## Calls -/

/-- What a call of a store is about. -/
inductive Party where
  | mirror
  | directory
  | snapshots
  deriving DecidableEq, Repr

/-- A call of a store, with its error if it failed. -/
structure Call where
  party : Party
  error : Option Error
  deriving DecidableEq, Repr

/-- The error of a result. -/
def Call.errorOf {α : Type} : Except Error α → Option Error
  | .ok _ => none
  | .error e => some e

/-- The state behind stores, and the calls made so far. -/
structure Overheard (σ : Type) where
  state : σ
  calls : List Call

namespace Stores

variable {σ α : Type}

/-- An operation that is listed. -/
def listed (party : Party) (x : StateM σ (Except Error α)) :
    StateM (Overheard σ) (Except Error α) := fun s =>
  let (result, state) := x.run s.state
  (result, ⟨state, s.calls ++ [⟨party, Call.errorOf result⟩]⟩)

/-- An operation that is not a call of a store. -/
def unlisted (x : StateM σ α) : StateM (Overheard σ) α := fun s =>
  let (a, state) := x.run s.state
  (a, { s with state := state })

/-- The same stores, keeping a list of the calls. -/
def overheard (stores : Stores σ) : Stores (Overheard σ) where
  transfers account stop page := listed .mirror (stores.transfers account stop page)
  accounts domain page := listed .mirror (stores.accounts domain page)
  rate scope asset := listed .directory (stores.rate scope asset)
  snapshot account asset time := listed .snapshots (stores.snapshot account asset time)
  append snapshot := listed .snapshots (stores.append snapshot)
  writesWait := unlisted stores.writesWait
  note notice := unlisted (stores.note notice)

end Stores

/-! ## The memo -/

namespace RateMemo

variable {σ : Type} {m : RateMemo} {scope asset : String}

/-- All rates kept are usable. -/
def Usable (m : RateMemo) : Prop :=
  ∀ scope asset fraction, m.find? scope asset = some fraction → checkFraction fraction = .ok ()

theorem usable_empty : Usable .empty := fun _ _ _ h => (nomatch h)

theorem Usable.learn (h : m.Usable) (answer : Except Error (Option Decimal)) :
    (m.learn scope asset (judge scope asset answer)).Usable := by
  rcases hjudge : judge scope asset answer with e | fraction
  · exact h
  · intro scope' asset' fraction' hfind
    rw [RateMemo.learn, find?_insert] at hfind
    split at hfind
    · cases hfind
      exact (judge_eq_ok_iff.mp hjudge).2
    · exact h _ _ _ hfind

/-- A rate that is kept is handed out, without a call. -/
theorem resolve_of_find? (stores : Stores σ) {fraction : Decimal}
    (h : m.find? scope asset = some fraction) (s : σ) :
    (m.resolve stores scope asset).run s = ((.ok fraction, m), s) := by
  unfold resolve
  rw [h]
  rfl

/-- Any other one is asked of the directory, judged and learnt; at most a notice is left. -/
theorem resolve_of_new (stores : Stores σ) (h : m.find? scope asset = none) (s : σ) :
    ∃ s', (m.resolve stores scope asset).run s =
        ((judge scope asset ((stores.rate scope asset).run s).1,
          m.learn scope asset (judge scope asset ((stores.rate scope asset).run s).1)), s') ∧
      (s' = ((stores.rate scope asset).run s).2 ∨
        ∃ notice, s' = ((stores.note notice).run ((stores.rate scope asset).run s).2).2) := by
  unfold resolve
  rw [h]
  dsimp only
  rw [StateT.run_bind]
  rcases (stores.rate scope asset).run s with ⟨e | _ | fraction, t⟩
  · exact ⟨t, rfl, .inl rfl⟩
  · exact ⟨_, rfl, .inr ⟨.rateMissing asset scope, rfl⟩⟩
  · exact ⟨t, rfl, .inl rfl⟩

end RateMemo

/-- Every question may be asked. -/
def Raised.answers (R : Raised) : Contract := ⟨fun _ => True, R.Allowed⟩

/-! ## Sessions that are overheard -/

namespace Session

variable {σ : Type} {stores : Stores σ}

/-- A session without the list of calls. -/
def plain (s : Session (Overheard σ)) : Session σ := ⟨s.memo, s.stores.state⟩

/-- Keeping the list changes no answer. -/
theorem answer_overheard (q : Question) (s : Session (Overheard σ)) :
    ((answer stores.overheard q).run s).1 = ((answer stores q).run s.plain).1 ∧
      ((answer stores.overheard q).run s).2.plain = ((answer stores q).run s.plain).2 := by
  cases q with
  | rate scope asset =>
    show (((s.memo.resolve stores.overheard scope asset).run s.stores).1.1 =
        ((s.memo.resolve stores scope asset).run s.stores.state).1.1) ∧
      (⟨((s.memo.resolve stores.overheard scope asset).run s.stores).1.2,
        ((s.memo.resolve stores.overheard scope asset).run s.stores).2.state⟩ : Session σ) =
        ⟨((s.memo.resolve stores scope asset).run s.stores.state).1.2,
          ((s.memo.resolve stores scope asset).run s.stores.state).2⟩
    unfold RateMemo.resolve
    rcases s.memo.find? scope asset with _ | fraction
    · dsimp only
      rw [StateT.run_bind, StateT.run_bind]
      have hread : (stores.overheard.rate scope asset).run s.stores =
          (((stores.rate scope asset).run s.stores.state).1,
            ⟨((stores.rate scope asset).run s.stores.state).2, s.stores.calls ++
              [⟨.directory, Call.errorOf ((stores.rate scope asset).run s.stores.state).1⟩]⟩) := rfl
      rw [hread]
      rcases (stores.rate scope asset).run s.stores.state with ⟨e | _ | fraction, state⟩
      · exact ⟨rfl, rfl⟩
      · exact ⟨rfl, rfl⟩
      · exact ⟨rfl, rfl⟩
    · exact ⟨rfl, rfl⟩
  | _ => exact ⟨rfl, rfl⟩

/-- The errors that a list of calls tells of. -/
def raised (calls : List Call) : Raised :=
  ⟨fun e => ⟨.mirror, some e⟩ ∈ calls, fun e => ⟨.directory, some e⟩ ∈ calls⟩

/-- Calls are only added; and the memo keeps usable rates, and every error answered is one of the
list or concerns one asset. -/
def Adds : Dialogue.Answering (Session (Overheard σ)) := fun s q a t =>
  s.stores.calls <+: t.stores.calls ∧
    (s.memo.Usable → t.memo.Usable ∧ (raised t.stores.calls).Allowed q a)

/-- The error of a call is in the list. -/
theorem mem_calls_of_error {β : Type} {party : Party} {x : StateM σ (Except Error β)}
    {s : Overheard σ} {e : Error} (h : ((Stores.listed party x).run s).1 = .error e) :
    ⟨party, some e⟩ ∈ ((Stores.listed party x).run s).2.calls := by
  have hlist : ((Stores.listed party x).run s).2.calls =
      s.calls ++ [⟨party, Call.errorOf ((Stores.listed party x).run s).1⟩] := rfl
  rw [hlist, h]
  exact List.mem_append_right _ List.mem_cons_self

/-- A rate is answered as the memo resolves it. -/
theorem answer_resolved (stores : Stores σ) (scope asset : String) (s : Session σ)
    {result : Except Error Decimal} {memo : RateMemo} {t : σ}
    (h : (s.memo.resolve stores scope asset).run s.stores = ((result, memo), t)) :
    (answer stores (.rate scope asset)).run s = (result, ⟨memo, t⟩) := by
  show (((s.memo.resolve stores scope asset).run s.stores).1.1,
    (⟨((s.memo.resolve stores scope asset).run s.stores).1.2,
      ((s.memo.resolve stores scope asset).run s.stores).2⟩ : Session σ)) = _
  rw [h]

/-- With usable rates in the memo only usable rates are answered, and kept. -/
theorem usable_rate (stores : Stores σ) (scope asset : String) (s : Session σ)
    (hmemo : s.memo.Usable) :
    ((answer stores (.rate scope asset)).run s).2.memo.Usable ∧
      ∀ fraction, ((answer stores (.rate scope asset)).run s).1 = .ok fraction →
        checkFraction fraction = .ok () := by
  rcases hfind : s.memo.find? scope asset with _ | found
  · obtain ⟨t, hrun, -⟩ := RateMemo.resolve_of_new stores hfind s.stores
    rw [answer_resolved stores scope asset s hrun]
    refine ⟨hmemo.learn _, fun fraction hok => ?_⟩
    exact (RateMemo.judge_eq_ok_iff.mp hok).2
  · rw [answer_resolved stores scope asset s (RateMemo.resolve_of_find? stores hfind s.stores)]
    refine ⟨hmemo, fun fraction hok => ?_⟩
    cases hok
    exact hmemo _ _ _ hfind

theorem adds_rate (stores : Stores σ) (scope asset : String) (s : Session (Overheard σ)) :
    Adds s (.rate scope asset) ((answer stores.overheard (.rate scope asset)).run s).1
      ((answer stores.overheard (.rate scope asset)).run s).2 := by
  have husable := usable_rate stores.overheard scope asset s
  have hcalls : s.stores.calls <+:
        ((answer stores.overheard (.rate scope asset)).run s).2.stores.calls ∧
      ∀ e, ((answer stores.overheard (.rate scope asset)).run s).1 = .error e →
        e.assetScoped = true ∨ ⟨.directory, some e⟩ ∈
          ((answer stores.overheard (.rate scope asset)).run s).2.stores.calls := by
    rcases hfind : s.memo.find? scope asset with _ | found
    · obtain ⟨t, hrun, hstate⟩ := RateMemo.resolve_of_new stores.overheard hfind s.stores
      -- a notice is no call
      have ht : t.calls = ((stores.overheard.rate scope asset).run s.stores).2.calls := by
        rcases hstate with rfl | ⟨notice, rfl⟩
        · rfl
        · rfl
      rw [answer_resolved _ scope asset s hrun]
      refine ⟨?_, fun e he => ?_⟩
      · show s.stores.calls <+: t.calls
        rw [ht]
        exact List.prefix_append _ _
      · rcases RateMemo.of_judge_eq_error he with hraised | hscoped
        · right
          show _ ∈ t.calls
          rw [ht]
          exact mem_calls_of_error hraised
        · exact .inl hscoped
    · rw [answer_resolved _ scope asset s (RateMemo.resolve_of_find? _ hfind s.stores)]
      exact ⟨List.prefix_refl _, fun e he => (nomatch he)⟩
  exact ⟨hcalls.1, fun hmemo => ⟨(husable hmemo).1, (husable hmemo).2, hcalls.2⟩⟩

theorem adds_answer (stores : Stores σ) (s : Session (Overheard σ)) (q : Question) :
    Adds s q ((answer stores.overheard q).run s).1 ((answer stores.overheard q).run s).2 := by
  cases q with
  | transfers account stop page =>
    exact ⟨List.prefix_append _ _, fun hmemo => ⟨hmemo, fun _ => mem_calls_of_error⟩⟩
  | accounts domain page =>
    exact ⟨List.prefix_append _ _, fun hmemo => ⟨hmemo, fun _ => mem_calls_of_error⟩⟩
  | rate scope asset => exact adds_rate stores scope asset s
  | snapshot account asset time => exact ⟨List.prefix_append _ _, fun hmemo => ⟨hmemo, trivial⟩⟩
  | append snapshot => exact ⟨List.prefix_append _ _, fun hmemo => ⟨hmemo, trivial⟩⟩
  | writesWait => exact ⟨List.prefix_refl _, fun hmemo => ⟨hmemo, trivial⟩⟩
  | note notice => exact ⟨List.prefix_refl _, fun hmemo => ⟨hmemo, trivial⟩⟩

/-- A longer list tells of more errors. -/
theorem raised_mono {calls calls' : List Call} (h : calls <+: calls') {q : Question} {a : q.Answer}
    (ha : (raised calls).Allowed q a) : (raised calls').Allowed q a := by
  cases q with
  | transfers account stop page => exact fun e he => h.subset (ha e he)
  | accounts domain page => exact fun e he => h.subset (ha e he)
  | rate scope asset => exact ⟨ha.1, fun e he => (ha.2 e he).imp_right fun hraised => h.subset hraised⟩
  | _ => exact trivial

/-- What is ensured as long as only given errors are answered holds at the end of a run, with the
errors of its calls. -/
theorem of_overheard {α : Type} {d : Dialogue α} {post : Raised → α → Prop}
    (hd : ∀ R : Raised, d.Ensures R.answers (post R)) {s : Session (Overheard σ)}
    (hmemo : s.memo.Usable) :
    let run := (d.run (answer stores.overheard)).run s
    post (raised run.2.stores.calls) run.1 := by
  intro run
  have hrun : d.RunsTo Adds s run.1 run.2 := Dialogue.runsTo_run (adds_answer stores) d s
  -- what a call has answered stays in the list up to the end
  let le : Session (Overheard σ) → Session (Overheard σ) → Prop := fun s t =>
    s.stores.calls <+: t.stores.calls
  have hrefl : ∀ s, le s s := fun s => List.prefix_refl s.stores.calls
  have htrans : ∀ s t u, le s t → le t u → le s u := fun s t u h h' => List.IsPrefix.trans h h'
  have hwithin := (hrun.within hrefl htrans fun _ _ _ _ h => h.1).2
  have hkeeps : Dialogue.Keeps (raised run.2.stores.calls).answers
      (fun s q a t => Adds s q a t ∧ le t run.2) fun s => s.memo.Usable := by
    rintro s q a t hs - ⟨hadds, hlast⟩
    obtain ⟨ht, hallowed⟩ := hadds.2 hs
    exact ⟨raised_mono hlast hallowed, ht⟩
  exact (Dialogue.Ensures.of_runsTo hkeeps (hd _) hwithin hmemo).1

end Session

/-! ## Reports -/

/-- A walk whose control points start at the start of the window, never go back from any of its
books to any later one, and end at its end. An asset that is left out stays out, so that none is
opened a second time. -/
structure Walk.Controlled (w : Walk) : Prop where
  inWindow : ∀ book, w.Visits book → ∀ asset st, book.find? asset = some st →
    w.window.start ≤ st.context.control ∧ st.context.control ≤ w.window.stop
  settles : ∀ book, w.Visits book → ∀ asset st, book.find? asset = some st →
    ∀ instant ≤ w.window.stop, ∀ delta,
      Context.OnlyOverflows
        (st.context.settle w.window instant st.fraction w.config.custodyPeriod) ∧
      Context.OnlyOverflows (w.settleAndApply st instant delta)
  starts : ∀ book book', w.Visits book → w.Move book book' → ∀ asset st',
    book.find? asset = none → book'.find? asset = some st' → st'.context.control = w.window.start
  advances : ∀ book book', w.Visits book → w.Moved book book' → ∀ asset st st',
    book.find? asset = some st → book'.find? asset = some st' →
      st.context.control ≤ st'.context.control
  stays : ∀ book book', w.Visits book → w.Moved book book' → ∀ asset st,
    book.find? asset = some st → (book'.find? asset).isSome = true ∨ book'.isSkipped asset = true
  omits : ∀ book book', w.Visits book → w.Moved book book' → ∀ asset,
    book.isSkipped asset = true → book'.isSkipped asset = true ∧ book'.find? asset = none
  replays : ∀ (R : Raised) book (t : Transfer), w.Visits book → t.occurredAt < w.window.stop →
    (w.replay book t).Ensures R.contract (w.Moved book) R.Fails
  reports : ∀ R : Raised, w.run.Ensures R.contract w.Reports R.Fails

/-- Every walk over a valid window is controlled. -/
theorem Walk.controlled {w : Walk} (hwindow : w.window.Valid) (hconfig : w.config.check = .ok ()) :
    w.Controlled where
  inWindow book hbook asset st hfind := by
    have hin := Moved.within hwindow hbook within_empty
    exact ⟨hin.inOrder.reached _ _ hfind, hin.reaches _ _ hfind⟩
  settles book hbook asset st hfind instant hinstant delta := by
    have hin := Moved.within hwindow hbook within_empty
    refine ⟨?_, onlyOverflows_settleAndApply hwindow hconfig hin hfind hinstant delta⟩
    exact Context.onlyOverflows_settle hwindow (Config.custodyPeriod_pos hconfig)
      (hin.usable _ _ hfind) (hin.inOrder.reached _ _ hfind) hinstant
  starts _ _ _ hmove _ _ hnew hfind := hmove.control_eq_start hnew hfind
  advances _ _ hbook hmoved _ _ _ hfind hfind' := Moved.control_le hbook hmoved hfind hfind'
  stays _ _ _ hmoved _ _ hfind := by
    cases hmoved.onward hfind with
    | stays st' found onward => exact .inl (Option.isSome_of_eq_some found)
    | leaves skipped => exact .inr skipped
  omits _ _ hbook hmoved _ hskipped := by
    have hstill := hmoved.skipped hskipped
    exact ⟨hstill, Moved.separate (hbook.trans hmoved) (separate_empty w.account) _ hstill⟩
  replays R book t hbook hcounts :=
    moves_replay hwindow hconfig (Moved.within hwindow hbook within_empty) hcounts
  reports R := moves_run hwindow hconfig

/-- A walk is made of moves in a report as well. -/
theorem Walk.answers_run {w : Walk} {R : Raised} (hwindow : w.window.Valid)
    (hconfig : w.config.check = .ok ()) : w.run.Ensures R.answers w.Reports R.Fails :=
  Dialogue.Ensures.under (moves_run hwindow hconfig) (fun _ _ => trivial) fun _ _ h => h

/-- A window that cannot be made is named with its ends. -/
theorem Window.make_eq_error {start stop : Int64} {e : Error}
    (h : Window.make start stop = .error e) : e = .custody (.invalidWindow start stop) := by
  unfold Window.make Window.length at h
  rcases hlength : (Window.mk start stop).length? with _ | length
  · rw [hlength] at h
    cases h
    rfl
  · rw [hlength] at h
    cases h

/-- A request for a page that is refused is an input error. -/
theorem PageRequest.check_eq_error {r : PageRequest} {e : Error} (h : r.check = .error e) :
    ∃ cause, e = .input cause := by
  unfold PageRequest.check at h
  split at h
  · cases h
    exact ⟨_, rfl⟩
  · split at h
    · cases h
      exact ⟨_, rfl⟩
    · cases h

/-- A text that is no account id is an input error. -/
theorem Account.ofId_eq_error {id : String} {e : Error} (h : Account.ofId id = .error e) :
    ∃ cause, e = .input cause := by
  unfold Account.ofId at h
  split at h
  · cases h
  · cases h
    exact ⟨_, rfl⟩

namespace Report

variable {σ α : Type} {config : Config} {start stop : Int64}

/-- The calls that a report makes. -/
def calls (stores : Stores σ) (report : Attempt α) (s : σ) : List Call :=
  ((runOn stores.overheard report).run ⟨s, []⟩).2.calls

/-- Keeping a list of the calls changes no report. -/
theorem runOn_overheard (stores : Stores σ) (report : Attempt α) (s : Overheard σ) :
    ((runOn stores.overheard report).run s).1 = ((runOn stores report).run s.state).1 ∧
      ((runOn stores.overheard report).run s).2.state =
        ((runOn stores report).run s.state).2 := by
  obtain ⟨hresult, hstate⟩ := Dialogue.run_projects Session.plain Session.answer_overheard
    report.run ⟨.empty, s⟩
  exact ⟨hresult, congrArg Session.stores hstate⟩

/-- What a report ensures as long as only given errors are answered, it comes to, with the errors
of its calls. -/
theorem ends_of_ensures (stores : Stores σ) {report : Attempt α} {post : α → Prop}
    (h : ∀ R : Raised, report.Ensures R.answers post R.Fails) (s : σ) :
    Attempt.Ends post (Session.raised (calls stores report s)).Fails
      ((runOn stores report).run s).1 := by
  rw [← (runOn_overheard stores report ⟨s, []⟩).1]
  exact Session.of_overheard h RateMemo.usable_empty

/-- A report that fails by itself asks nothing. -/
theorem runOn_of_error (stores : Stores σ) {report : Attempt α} {e : Error}
    (h : report.run = .done (.error e)) (s : σ) :
    (runOn stores report).run s = (.error e, s) ∧ calls stores report s = [] := by
  unfold calls runOn
  rw [h]
  exact ⟨rfl, rfl⟩

/-- How a report over a window may fail, by the calls it has made. -/
inductive Fails (start stop : Int64) (calls : List Call) (unchanged : Prop) : Error → Prop
  | window (early : calls = []) (same : unchanged) :
      Fails start stop calls unchanged (.custody (.invalidWindow start stop))
  | input (cause : InputError) (early : calls = []) (same : unchanged) :
      Fails start stop calls unchanged (.input cause)
  | unavailable (cause : DatabaseError) (raised : ⟨.mirror, some (.database cause)⟩ ∈ calls)
      (again : (Error.custody (.ledgerUnavailable cause.message)).retryable = true) :
      Fails start stop calls unchanged (.custody (.ledgerUnavailable cause.message))
  | mirror (e : Error) (raised : ⟨.mirror, some e⟩ ∈ calls) (other : ∀ cause, e ≠ .database cause) :
      Fails start stop calls unchanged e
  | directory (e : Error) (raised : ⟨.directory, some e⟩ ∈ calls) (wide : e.assetScoped = false) :
      Fails start stop calls unchanged e

theorem Fails.of_raised {calls : List Call} {unchanged : Prop} {e : Error}
    (h : (Session.raised calls).Fails e) : Fails start stop calls unchanged e := by
  rcases h with ⟨raised, hraised, rfl⟩ | ⟨hraised, hwide⟩
  · cases raised with
    | database cause => exact .unavailable cause hraised rfl
    | _ => exact .mirror _ hraised fun cause h => nomatch h
  · exact .directory e hraised hwide

/-- A report fails with a database error only if a call has. -/
theorem Fails.raised_database {calls : List Call} {unchanged : Prop} {cause : DatabaseError}
    (h : Fails start stop calls unchanged (.database cause)) :
    ∃ party, ⟨party, some (.database cause)⟩ ∈ calls := by
  cases h with
  | mirror _ raised _ => exact ⟨_, raised⟩
  | directory _ raised _ => exact ⟨_, raised⟩

/-- Where its arguments are valid a report on an account is made of moves. -/
theorem moves_account (hconfig : config.check = .ok ()) {window : Window} {id : String}
    {a : Account} (hmade : Window.make start stop = .ok window) (hid : Account.ofId id = .ok a)
    (R : Raised) :
    (account config id start stop).Ensures R.answers
      (fun assets => (Walk.make config window a).Reports ⟨a.id, assets⟩) R.Fails := by
  have hwindow := (Window.make_eq_ok hmade).2
  unfold account
  rw [hmade, hid, Attempt.ensures_bind, Attempt.ensures_ofExcept, Attempt.ends_ok,
    Attempt.ensures_bind, Attempt.ensures_ofExcept, Attempt.ends_ok, Attempt.ensures_bind]
  have hwalk := Walk.answers_run (w := .make config window a) (R := R) hwindow hconfig
  refine hwalk.mono (fun custody hcustody => ?_) fun _ he => he
  exact ⟨rfl, hcustody.2⟩

/-- The totals of the accounts listed on a page. -/
def walkListed (config : Config) (window : Window) (listing : Listing Account) :
    Attempt (Listing AccountCustody) := do
  let width := if ← Attempt.question .writesWait then config.maxConcurrentAccounts else 1
  let totals ← Attempt.sideBySide width <|
    listing.items.map fun a => (Walk.make config window a).run
  return ⟨totals, listing.total⟩

/-- A report on a page fails by itself if its window cannot be made. -/
theorem accounts_run_of_window {e : Error} (hmade : Window.make start stop = .error e)
    (domain : Option String) (page : PageRequest) :
    (accounts config domain start stop page).run = .done (.error e) := by
  unfold accounts
  rw [hmade]
  rfl

/-- It does so, too, if the page is refused. -/
theorem accounts_run_of_page {window : Window} {page : PageRequest} {e : Error}
    (hmade : Window.make start stop = .ok window) (hpage : page.check = .error e)
    (domain : Option String) :
    (accounts config domain start stop page).run = .done (.error e) := by
  unfold accounts
  rw [hmade, hpage]
  rfl

/-- Where its arguments are valid a report on a page asks for its accounts and walks over them. -/
theorem accounts_run {window : Window} {page : PageRequest}
    (hmade : Window.make start stop = .ok window) (hpage : page.check = .ok ())
    (domain : Option String) :
    (accounts config domain start stop page).run = .ask (.accounts domain page) fun
      | .error e => .done (.error (ledgerError e))
      | .ok listing => (walkListed config window listing).run := by
  unfold accounts
  rw [hmade, hpage]
  refine congrArg (Dialogue.ask (.accounts domain page)) (funext fun answer => ?_)
  cases answer <;> rfl

/-- The report goes on from the answer as it would from its accounts. -/
theorem runOn_accounts {stores : Stores σ} {window : Window} {page : PageRequest}
    {domain : Option String} {listing : Listing Account} {s t : σ}
    (hmade : Window.make start stop = .ok window) (hpage : page.check = .ok ())
    (h : (stores.accounts domain page).run s = (.ok listing, t)) :
    (runOn stores (accounts config domain start stop page)).run s =
      (runOn stores (walkListed config window listing)).run t := by
  have hanswer : (Session.answer stores (.accounts domain page)).run ⟨.empty, s⟩ =
      (.ok listing, ⟨.empty, t⟩) := by
    show (let (a, stores') := (stores.accounts domain page).run s
      ((a, ⟨.empty, stores'⟩) : Except Error (Listing Account) × Session σ)) = _
    rw [h]
  have hrun : ∀ (report : Attempt (Listing AccountCustody)) s,
      (runOn stores report).run s =
        (((report.run.run (Session.answer stores)).run ⟨.empty, s⟩).1,
          ((report.run.run (Session.answer stores)).run ⟨.empty, s⟩).2.stores) := fun _ _ => rfl
  rw [hrun, hrun, accounts_run hmade hpage, Dialogue.run, StateT.run_bind, hanswer]
  rfl

/-- What each walk ensures of its account holds of all that are listed, one by one. -/
theorem ensures_walkListed {C : Contract} {window : Window} {listing : Listing Account}
    {post : Account → AccountCustody → Prop} {fail : Error → Prop} (hasked : C.asked .writesWait)
    (hwalks : ∀ a, (Walk.make config window a).run.Ensures C (post a) fail) :
    (walkListed config window listing).Ensures C
      (fun totals => totals.total = listing.total ∧
        List.Forall₂ post listing.items totals.items) fail := by
  unfold walkListed
  rw [Attempt.ensures_bind, Attempt.ensures_question]
  refine ⟨hasked, fun waits _ => ?_⟩
  rw [Attempt.ensures_bind]
  let posts (a : Account) : Except Error AccountCustody → Prop := Attempt.Ends (post a) fail
  have hall : List.Forall₂
      (fun (x : Attempt AccountCustody) post => Dialogue.Ensures C post x.run)
      (listing.items.map fun a => (Walk.make config window a).run) (listing.items.map posts) := by
    rw [List.forall₂_map_left_iff, List.forall₂_map_right_iff, List.forall₂_same]
    exact fun a _ => hwalks a
  refine (Attempt.ensures_run_iff.mp (Attempt.ensures_inTurn_sideBySide hall)).mono
    (fun totals htotals => ?_) fun e he => ?_
  · have hposts := htotals.ends
    rw [Attempt.ends_ok, List.forall₂_map_left_iff] at hposts
    exact ⟨rfl, hposts⟩
  · obtain ⟨ends, hends, hfails⟩ := he.ends
    obtain ⟨a, -, rfl⟩ := List.mem_map.mp hends
    exact hfails

/-- Where its arguments are valid a report on a page of accounts is made of moves, account by
account. -/
theorem moves_accounts (hconfig : config.check = .ok ()) {window : Window} {page : PageRequest}
    (hmade : Window.make start stop = .ok window) (hpage : page.check = .ok ())
    (domain : Option String) (R : Raised) :
    (accounts config domain start stop page).Ensures R.answers
      (fun listing => ∀ item ∈ listing.items, ∃ a, (Walk.make config window a).Reports item)
      R.Fails := by
  have hwindow := (Window.make_eq_ok hmade).2
  unfold Attempt.Ensures
  rw [accounts_run hmade hpage]
  refine ⟨trivial, fun answer hallowed => ?_⟩
  rcases answer with e | listing
  · exact .inl ⟨e, hallowed e rfl, rfl⟩
  · have hwalks : (walkListed config window listing).Ensures R.answers _ _ :=
      ensures_walkListed trivial fun a =>
        Walk.answers_run (w := .make config window a) hwindow hconfig
    refine hwalks.mono (fun totals htotals item hitem => ?_) fun _ he => he
    obtain ⟨a, -, hreports⟩ := exists_mem_of_forall₂ htotals.2 hitem
    exact ⟨a, hreports⟩

/-- How a report over a window ends on stores: with a result, or with an error that its calls
account for. -/
def EndsOn (stores : Stores σ) (report : Attempt α) (start stop : Int64) (post : α → Prop)
    (s : σ) : Prop :=
  Attempt.Ends post
    (Fails start stop (calls stores report s) (((runOn stores report).run s).2 = s))
    ((runOn stores report).run s).1

theorem endsOn_of_ensures (stores : Stores σ) {report : Attempt α} {post : α → Prop}
    (h : ∀ R : Raised, report.Ensures R.answers post R.Fails) (s : σ) :
    EndsOn stores report start stop post s :=
  Attempt.Ends.mono (ends_of_ensures stores h s) (fun _ ha => ha) fun _ he => .of_raised he

/-- Ends that cannot be a window are refused first. -/
theorem endsOn_of_window_error (stores : Stores σ) {report : Attempt α} {post : α → Prop} {e : Error}
    (hmade : Window.make start stop = .error e) (h : report.run = .done (.error e)) (s : σ) :
    EndsOn stores report start stop post s := by
  obtain ⟨hrun, hcalls⟩ := runOn_of_error stores h s
  unfold EndsOn
  rw [hrun, Window.make_eq_error hmade]
  exact .window hcalls rfl

/-- Any other argument is refused as an input. -/
theorem endsOn_of_input_error (stores : Stores σ) {report : Attempt α} {post : α → Prop}
    (cause : InputError) (h : report.run = .done (.error (.input cause))) (s : σ) :
    EndsOn stores report start stop post s := by
  obtain ⟨hrun, hcalls⟩ := runOn_of_error stores h s
  unfold EndsOn
  rw [hrun]
  exact .input cause hcalls rfl

theorem endsOn_account (stores : Stores σ) (hconfig : config.check = .ok ()) (id : String)
    (start stop : Int64) (s : σ) :
    EndsOn stores (account config id start stop) start stop
      (fun assets => ∃ a, Account.ofId id = .ok a ∧ (Window.mk start stop).Valid ∧
        (Walk.make config ⟨start, stop⟩ a).Reports ⟨a.id, assets⟩) s := by
  rcases hmade : Window.make start stop with e | window
  · apply endsOn_of_window_error stores hmade
    unfold account
    rw [hmade]
    rfl
  rcases hid : Account.ofId id with e | a
  · obtain ⟨cause, rfl⟩ := Account.ofId_eq_error hid
    apply endsOn_of_input_error stores cause
    unfold account
    rw [hmade, hid]
    rfl
  obtain ⟨rfl, hwindow⟩ := Window.make_eq_ok hmade
  apply endsOn_of_ensures
  intro R
  exact (moves_account hconfig hmade hid R).mono (fun assets h => ⟨a, rfl, hwindow, h⟩) fun _ he => he

theorem endsOn_accounts (stores : Stores σ) (hconfig : config.check = .ok ())
    (domain : Option String) (page : PageRequest) (start stop : Int64) (s : σ) :
    EndsOn stores (accounts config domain start stop page) start stop
      (fun listing => (Window.mk start stop).Valid ∧
        ∀ item ∈ listing.items, ∃ a, (Walk.make config ⟨start, stop⟩ a).Reports item) s := by
  rcases hmade : Window.make start stop with e | window
  · exact endsOn_of_window_error stores hmade (accounts_run_of_window hmade domain page) s
  rcases hpage : page.check with e | ⟨⟩
  · obtain ⟨cause, rfl⟩ := PageRequest.check_eq_error hpage
    exact endsOn_of_input_error stores cause (accounts_run_of_page hmade hpage domain) s
  obtain ⟨rfl, hwindow⟩ := Window.make_eq_ok hmade
  apply endsOn_of_ensures
  intro R
  exact (moves_accounts hconfig hmade hpage domain R).mono (fun _ h => ⟨hwindow, h⟩) fun _ he => he

/-- Over any stores, walks are controlled: control points start at the start of the window, from
there to the end of the walk never go back and never pass its end, so that settlements fail only
where a decimal does not fit, and what is reported stands at the end of the window. A report fails
with an error of its window or its other arguments before any call, with an error of the mirror, a
database error then being one to try again, or with an error of the directory that concerns more
than one asset. -/
theorem control_points_and_failures (stores : Stores σ) (hconfig : config.check = .ok ()) :
    (∀ (window : Window) (a : Account), window.Valid → (Walk.make config window a).Controlled) ∧
    (∀ id start stop s,
      EndsOn stores (account config id start stop) start stop
        (fun assets => ∃ a, Account.ofId id = .ok a ∧ (Window.mk start stop).Valid ∧
          (Walk.make config ⟨start, stop⟩ a).Reports ⟨a.id, assets⟩) s) ∧
    ∀ domain page start stop s,
      EndsOn stores (accounts config domain start stop page) start stop
        (fun listing => (Window.mk start stop).Valid ∧
          ∀ item ∈ listing.items, ∃ a, (Walk.make config ⟨start, stop⟩ a).Reports item) s := by
  have hwalks : ∀ (window : Window) (a : Account), window.Valid →
      (Walk.make config window a).Controlled := by
    intro window a hwindow
    exact Walk.controlled hwindow hconfig
  exact ⟨hwalks, endsOn_account stores hconfig, endsOn_accounts stores hconfig⟩

/-- Alice's fifty units are reported from a control point inside the window that no later book of
the walk takes back; and without a table of rates the report on her fails with what a call has failed
with. -/
theorem sample_control_points_and_failures :
    let w : Walk := .make .default ⟨20, 100⟩ Sample.account
    let report := account .default Sample.account.id 20 100
    let cut : Database := .ofTables { Sample.tables [] with rates := none }
    let missing := (Tables.noSuchTable TableName.rates.text).toError
    (∃ book st, w.Visits book ∧ book.find? "usd#bank" = some st ∧
      20 ≤ st.context.control ∧ st.context.control ≤ 100 ∧
      ∀ book' st', w.Moved book book' → book'.find? "usd#bank" = some st' →
        st.context.control ≤ st'.context.control) ∧
    ((runOn Database.stores report).run cut).1 = .error missing ∧
    ∃ party, ⟨party, some missing⟩ ∈ calls Database.stores report cut := by
  intro w report cut missing
  have hconfig : Config.default.check = .ok () := by decide
  have hwindow : (Window.mk 20 100).Valid := by decide
  have hid : Account.ofId Sample.account.id = .ok Sample.account :=
    Account.ofId_id (by decide) (by decide) (by decide)
  obtain ⟨hwalks, hreports, -⟩ := control_points_and_failures Database.stores hconfig
  refine ⟨?_, ?_⟩
  · let db : Database := .ofTables (Sample.tables [Sample.row])
    have hrun : ((runOn Database.stores report).run db).1 = .ok Sample.custody.assets := by
      rw [account_of_later hconfig hwindow hid .refl (ends_runOn report db),
        Sample.walked_account]
      rfl
    have hends : EndsOn Database.stores report 20 100 _ db := hreports Sample.account.id 20 100 db
    unfold EndsOn at hends
    rw [hrun] at hends
    obtain ⟨a, ha, -, -, book, hvisits, hcloses⟩ := hends
    cases hid.symm.trans ha
    obtain ⟨st, hfind, -⟩ := hcloses "usd#bank" _ List.mem_cons_self
    have hcontrolled := hwalks ⟨20, 100⟩ Sample.account hwindow
    have hin := hcontrolled.inWindow book hvisits _ _ hfind
    refine ⟨book, st, hvisits, hfind, hin.1, hin.2, fun book' st' hmoved hfind' => ?_⟩
    exact hcontrolled.advances book book' hvisits hmoved _ st st' hfind hfind'
  · have hwalked : walked .default ⟨20, 100⟩ cut Sample.account = .error missing := by
      unfold walked Walk.result
      rw [Sample.reading cut rfl]
      decide +kernel
    have hrun : ((runOn Database.stores report).run cut).1 = .error missing := by
      rw [account_of_later hconfig hwindow hid .refl (ends_runOn report cut), hwalked]
      rfl
    have hends : EndsOn Database.stores report 20 100 _ cut :=
      hreports Sample.account.id 20 100 cut
    unfold EndsOn at hends
    rw [hrun] at hends
    exact ⟨hrun, Fails.raised_database hends⟩

end Report

end Custodian
