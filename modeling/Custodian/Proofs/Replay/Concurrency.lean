import Custodian.Proofs.Database.Lookups
import Custodian.Proofs.Dialogue.Buffer
import Custodian.Proofs.Replay.Reference
import Custodian.Proofs.Replay.Result

/-!
# Accounts walked at the same time

The walks of a page share the rate memo and the snapshots. However they take turns in a buffer,
and whichever of their recordings fail, they come to what they come to one after another
(`Report.buffered_eq_oneByOne`): a walk looks at nothing that another one changes. On the way the
directory of rates is asked at most once for each usable rate, which `Stores.watched` counts.
-/

namespace Custodian

/-! ## Counting look-ups of rates -/

/-- The state behind stores, and the look-ups of rates made so far. -/
structure Watched (σ : Type) where
  state : σ
  lookups : List (String × String)

namespace Stores

variable {σ : Type}

/-- An operation in which no rate is looked up. -/
def unwatched {β : Type} (x : StateM σ β) : StateM (Watched σ) β := fun s =>
  let (b, state) := x.run s.state
  (b, { s with state := state })

/-- The same stores, keeping a list of the look-ups of rates. -/
def watched (stores : Stores σ) : Stores (Watched σ) where
  transfers account stop page := unwatched (stores.transfers account stop page)
  accounts domain page := unwatched (stores.accounts domain page)
  rate scope asset := fun s =>
    let (result, state) := (stores.rate scope asset).run s.state
    (result, ⟨state, (scope, asset) :: s.lookups⟩)
  snapshot account asset time := unwatched (stores.snapshot account asset time)
  append snapshot := unwatched (stores.append snapshot)
  writesWait := unwatched stores.writesWait
  note notice := unwatched (stores.note notice)

end Stores

/-- A look-up through the memo is made in the directory, or spared. -/
theorem RateMemo.resolve_watched {σ : Type} (stores : Stores σ) (m : RateMemo) (s : Watched σ)
    (scope asset : String) :
    let plain := (m.resolve stores scope asset).run s.state
    (m.resolve stores.watched scope asset).run s =
      (plain.1, ⟨plain.2, if (m.find? scope asset).isSome then s.lookups
        else (scope, asset) :: s.lookups⟩) := by
  unfold resolve
  rcases m.find? scope asset with _ | fraction
  · dsimp only
    rw [StateT.run_bind, StateT.run_bind]
    have hread : (stores.watched.rate scope asset).run s =
        (((stores.rate scope asset).run s.state).1,
          ⟨((stores.rate scope asset).run s.state).2, (scope, asset) :: s.lookups⟩) := rfl
    rw [hread]
    rcases (stores.rate scope asset).run s.state with ⟨e | _ | fraction, state⟩
    · rfl
    · rfl
    · rfl
  · rfl

namespace Session

variable {σ : Type} {stores : Stores σ} {s s' : Session (Watched σ)} {q : Question} {a : q.Answer}

/-- A session without the list of look-ups. -/
def unwatched (s : Session (Watched σ)) : Session σ := ⟨s.memo, s.stores.state⟩

/-- Keeping the list changes no answer. -/
theorem answer_watched (s : Session (Watched σ)) (q : Question) :
    ((answer stores.watched q).run s).1 = ((answer stores q).run s.unwatched).1 ∧
      ((answer stores.watched q).run s).2.unwatched = ((answer stores q).run s.unwatched).2 := by
  rcases q with _ | _ | ⟨scope, asset⟩ | _ | _ | _ | _
  · exact ⟨rfl, rfl⟩
  · exact ⟨rfl, rfl⟩
  · have hresolve := s.memo.resolve_watched stores s.stores scope asset
    have hrun : (answer stores.watched (.rate scope asset)).run s =
      (((s.memo.resolve stores.watched scope asset).run s.stores).1.1,
        ⟨((s.memo.resolve stores.watched scope asset).run s.stores).1.2,
          ((s.memo.resolve stores.watched scope asset).run s.stores).2⟩) := rfl
    rw [hrun, hresolve]
    exact ⟨rfl, rfl⟩
  · exact ⟨rfl, rfl⟩
  · exact ⟨rfl, rfl⟩
  · exact ⟨rfl, rfl⟩
  · exact ⟨rfl, rfl⟩

/-- Neither does it hide any fault. -/
theorem Unreliable.unwatched (h : Unreliable stores.watched s q a s') :
    Unreliable stores s.unwatched q a s'.unwatched := by
  cases h with
  | answered _ _ =>
    obtain ⟨hanswer, hafter⟩ := @answer_watched σ stores s q
    rw [hanswer, hafter]
    exact .answered s.unwatched q
  | recordingFailed _ snapshot e => exact .recordingFailed s.unwatched snapshot e
  | recordingUnconfirmed _ snapshot e => exact .recordingUnconfirmed s.unwatched snapshot e

/-! ## At most one look-up for each usable rate -/

/-- The directory is as it was, and each usable rate has been looked up at most once, and not at
all unless the memo has it. -/
structure Tallied (t : Tables) (s : Session (Watched Database)) : Prop where
  rates : s.stores.state.tables.rates = t.rates
  once : ∀ scope asset fraction,
    RateMemo.judge scope asset (t.findCustodyRate scope asset) = .ok fraction →
    s.stores.lookups.count (scope, asset) ≤ if (s.memo.find? scope asset).isSome then 1 else 0

variable {t : Tables} {s s' : Session (Watched Database)}

/-- Rates are found in the table of rates. -/
theorem findCustodyRate_congr {t t' : Tables} (h : t.rates = t'.rates) (scope asset : String) :
    t.findCustodyRate scope asset = t'.findCustodyRate scope asset := by
  unfold Tables.findCustodyRate Tables.findRate
  rw [h]

/-- A look-up that is made leaves a usable rate in the memo. -/
theorem Tallied.resolve (h : Tallied t s) (scope asset : String) :
    let after := ((answer Database.stores.watched (.rate scope asset)).run s).2
    ∀ scope' asset' fraction,
      RateMemo.judge scope' asset' (t.findCustodyRate scope' asset') = .ok fraction →
      after.stores.lookups.count (scope', asset') ≤
        if (after.memo.find? scope' asset').isSome then 1 else 0 := by
  intro after scope' asset' fraction husable
  have honce := h.once scope' asset' fraction husable
  have hresolve := s.memo.resolve_watched Database.stores s.stores scope asset
  have hmemo : after.memo = ((s.memo.resolve Database.stores scope asset).run s.stores.state).1.2 :=
    congrArg (fun p => p.1.2) hresolve
  have hlookups : after.stores.lookups = if (s.memo.find? scope asset).isSome
      then s.stores.lookups else (scope, asset) :: s.stores.lookups :=
    congrArg (fun p => p.2.lookups) hresolve
  rw [hmemo, hlookups]
  rcases hfind : s.memo.find? scope asset with _ | known
  · obtain ⟨notices, hrun⟩ := RateMemo.resolve_of_find?_eq_none hfind s.stores.state
    rw [hrun, findCustodyRate_congr h.rates]
    by_cases hsame : scope' = scope ∧ asset' = asset
    · obtain ⟨rfl, rfl⟩ := hsame
      rw [hfind] at honce
      rw [husable]
      simp [RateMemo.learn, RateMemo.find?_insert] at honce ⊢
      omega
    · have hother : ((s.memo.learn scope asset
          (RateMemo.judge scope asset (t.findCustodyRate scope asset))).find? scope' asset') =
          s.memo.find? scope' asset' := by
        rcases RateMemo.judge scope asset (t.findCustodyRate scope asset) with e | learnt
        · rfl
        · rw [RateMemo.learn, RateMemo.find?_insert, if_neg hsame]
      have hne : (scope, asset) ≠ (scope', asset') := by
        intro heq
        cases heq
        exact hsame ⟨rfl, rfl⟩
      simp only [Option.isSome_none, Bool.false_eq_true, if_false, hother,
        List.count_cons_of_ne hne]
      exact honce
  · have hspared : (s.memo.resolve Database.stores scope asset).run s.stores.state =
        ((.ok known, s.memo), s.stores.state) := by
      unfold RateMemo.resolve
      rw [hfind]
      rfl
    rw [hspared]
    exact honce

/-- Every answer keeps the tally, whatever becomes of recordings. -/
theorem Tallied.step (h : Tallied t s) {q : Question} {a : q.Answer}
    (hstep : Unreliable Database.stores.watched s q a s') : Tallied t s' := by
  obtain ⟨snapshots, htables⟩ := hstep.unwatched.step.tables_eq
  have hrates : s'.stores.state.tables.rates = t.rates := by
    rw [show s'.stores.state.tables = _ from htables]
    exact h.rates
  refine ⟨hrates, fun scope asset fraction husable => ?_⟩
  cases hstep with
  | answered _ _ =>
    rcases q with _ | _ | ⟨scope', asset'⟩ | _ | _ | _ | _
    · exact h.once scope asset fraction husable
    · exact h.once scope asset fraction husable
    · exact h.resolve scope' asset' scope asset fraction husable
    · exact h.once scope asset fraction husable
    · exact h.once scope asset fraction husable
    · exact h.once scope asset fraction husable
    · exact h.once scope asset fraction husable
  | recordingFailed => exact h.once scope asset fraction husable
  | recordingUnconfirmed => exact h.once scope asset fraction husable

/-- Every way a watched session answers is one in which the plain one does. -/
theorem keeps_lookups_watched {t : Tables} {rate : String → String → Except Error Decimal}
    {start : Int64} :
    Dialogue.Keeps ((t.lookups rate).contract start) (Unreliable Database.stores.watched)
      fun s => Reads t rate start s.unwatched := fun s q a s' hs hasked hstep =>
  keeps_lookups s.unwatched q a s'.unwatched hs hasked hstep.unwatched

end Session

/-! ## Walks in a buffer -/

namespace Report

/-- What the walks over several accounts come to one after another, with one memo. -/
def oneByOne (config : Config) (window : Window) (accounts : List Account) (db : Database) :
    Except Error (List AccountCustody) :=
  (((accounts.mapM fun a => (Walk.make config window a).run).run.run
    (Session.answer Database.stores)).run ⟨.empty, db⟩).1

/-- The walks over several accounts, waiting to be started. -/
def buffered (config : Config) (window : Window) (accounts : List Account) (db : Database) :
    Buffered AccountCustody (Session (Watched Database)) :=
  ⟨[], accounts.map fun a => (Walk.make config window a).run.run, ⟨.empty, ⟨db, []⟩⟩⟩

/-- One step of the walks, as many as may be in the buffer at once. Recordings may fail. -/
abbrev BufferedStep (config : Config) :
    Buffered AccountCustody (Session (Watched Database)) →
      Buffered AccountCustody (Session (Watched Database)) → Prop :=
  Buffered.Step (Session.Unreliable Database.stores.watched) config.maxConcurrentAccounts

variable {config : Config} {window : Window}

/-- One after another, walks come to their results or to the first failure, whichever of their
recordings fail. -/
theorem oneByOne_eq_results (hconfig : config.check = .ok ()) (hwindow : window.Valid)
    {accounts : List Account} {db : Database} {result : Except Error (List AccountCustody)}
    {s : Session Database}
    (hrun : Dialogue.RunsTo (Session.Unreliable Database.stores)
      (accounts.mapM fun a => (Walk.make config window a).run).run ⟨.empty, db⟩ result s) :
    result = (accounts.map fun a => (Walk.make config window a).result
      (db.tables.lookups (RateMemo.empty.rate db.tables))).mapM id := by
  let L := db.tables.lookups (RateMemo.empty.rate db.tables)
  have hwalk : ∀ a, Dialogue.Ensures (L.contract window.start)
      (· = (Walk.make config window a).result L) (Walk.make config window a).run.run :=
    fun a => ensures_walk_result L hconfig a (Window.make_of_valid hwindow)
  exact (Session.of_unreliable (Session.reads_self .empty db window.start)
    (Attempt.ensures_mapM hwalk accounts) hrun).1

/-- However the walks over a page take turns, and whichever of their recordings fail, they come
to what they come to one after another: everything ends, nothing else is ever the end, and the
directory of rates is asked at most once for each usable rate. So do the walks one after another
whichever recordings fail, and so does the report on the page. -/
theorem buffered_eq_oneByOne (hconfig : config.check = .ok ()) (hwindow : window.Valid)
    (accounts : List Account) (db : Database) :
    Inevitably (BufferedStep config)
        (fun b => b.outcome? = some (oneByOne config window accounts db))
        (buffered config window accounts db) ∧
      (∀ b, Relation.ReflTransGen (BufferedStep config) (buffered config window accounts db) b →
        (∀ outcome, b.outcome? = some outcome →
          outcome = oneByOne config window accounts db) ∧
        ∀ scope asset fraction, db.tables.findCustodyRate scope asset = .ok (some fraction) →
          .zero < fraction → fraction ≤ .one →
          b.state.stores.lookups.count (scope, asset) ≤ 1) ∧
      (∀ result s, Dialogue.RunsTo (Session.Unreliable Database.stores)
        (accounts.mapM fun a => (Walk.make config window a).run).run ⟨.empty, db⟩ result s →
        result = oneByOne config window accounts db) ∧
      ∀ domain page total result s,
        db.tables.listAccounts domain page = .ok ⟨accounts, total⟩ → page.check = .ok () →
        Dialogue.RunsTo (Session.Unreliable Database.stores)
          (Report.accounts config domain window.start window.stop page).run ⟨.empty, db⟩ result s →
        result = (oneByOne config window accounts db).map (⟨·, total⟩) := by
  let L := db.tables.lookups (RateMemo.empty.rate db.tables)
  have hresults := oneByOne_eq_results hconfig hwindow
    (Session.runsTo_unreliable Database.stores
      (accounts.mapM fun a => (Walk.make config window a).run).run ⟨.empty, db⟩)
  have hstart : (buffered config window accounts db).Delivers (L.contract window.start)
      (fun s => Session.Reads db.tables L.rate window.start s.unwatched)
      (accounts.map fun a => (Walk.make config window a).result L) := by
    refine ⟨⟨_, rfl, ?_⟩, Session.reads_self .empty db window.start⟩
    show List.Forall₂ _ (accounts.map fun a => (Walk.make config window a).run.run) _
    rw [List.forall₂_map_left_iff, List.forall₂_map_right_iff, List.forall₂_same]
    exact fun a _ => ensures_walk_result L hconfig a (Window.make_of_valid hwindow)
  unfold oneByOne
  rw [hresults]
  refine ⟨?_, fun b hreach =>
    ⟨fun outcome hend => ?_, fun scope asset fraction hfound hpos hone => ?_⟩,
    fun result s hrun => oneByOne_eq_results hconfig hwindow hrun,
    fun domain page total result s hlisted hpage hrun => ?_⟩
  · exact Buffered.inevitably_outcome Session.keeps_lookups_watched
      (fun s q => ⟨_, _, .answered s q⟩) (Config.maxConcurrentAccounts_pos hconfig) hstart
  · exact Buffered.outcome_of_reachable Session.keeps_lookups_watched hstart hreach hend
  · have htallied : Session.Tallied db.tables b.state := by
      refine Buffered.state_of_reachable (fun _ _ _ _ hs hstep => hs.step hstep) ⟨rfl, ?_⟩ hreach
      intro scope asset fraction _
      exact Nat.zero_le _
    have hcheck : checkFraction fraction = .ok () := checkFraction_eq_ok_iff.mpr ⟨hpos, hone⟩
    have husable : RateMemo.judge scope asset (db.tables.findCustodyRate scope asset) =
        .ok fraction := by
      rw [hfound, RateMemo.judge, hcheck]
      rfl
    have honce := htallied.once scope asset fraction husable
    split at honce
    · exact honce
    · omega
  · have hensures := ensures_accounts_result L hconfig domain window.start window.stop page
    have hresult := (Session.of_unreliable (Session.reads_self .empty db window.start) hensures
      hrun).1
    rw [hresult]
    unfold accountsFrom
    rw [Window.make_of_valid hwindow, hpage, show L.accounts domain page = _ from hlisted]
    rfl

/-- Alice and the treasury, walked at the same time in any order. -/
theorem buffered_sample_eq_oneByOne :
    let accounts : List Account := [Sample.account, ⟨"treasury", "bank"⟩]
    let db : Database := .ofTables (Sample.tables [Sample.row])
    Config.default.check = .ok () ∧ (Window.mk 20 100).Valid ∧
      Inevitably (BufferedStep .default)
        (fun b => b.outcome? = some (oneByOne .default ⟨20, 100⟩ accounts db))
        (buffered .default ⟨20, 100⟩ accounts db) ∧
      ∀ b, Relation.ReflTransGen (BufferedStep .default)
          (buffered .default ⟨20, 100⟩ accounts db) b →
        b.state.stores.lookups.count ("custody_billing@bank", "usd#bank") ≤ 1 := by
  intro accounts db
  have hconfig : Config.default.check = .ok () := by decide
  have hwindow : (Window.mk 20 100).Valid := by decide
  have h := buffered_eq_oneByOne hconfig hwindow accounts db
  have hrate : db.tables.findCustodyRate "custody_billing@bank" "usd#bank" =
      .ok (some ⟨false, 1, 1, by decide, by decide⟩) := by decide +kernel
  exact ⟨hconfig, hwindow, h.1, fun b hb =>
    (h.2.1 b hb).2 "custody_billing@bank" "usd#bank" _ hrate (by decide) (by decide)⟩

end Report

end Custodian
