import Custodian.Proofs.Dialogue.SideBySide
import Custodian.Proofs.Replay.Walk
import Custodian.Replay.Report

/-!
# Reports come to their outcomes

A report is checks of its arguments and walks over accounts, one or several side by side. So
in a world it comes to what its walks come to, one after another
(`Report.ensures_account`, `Report.ensures_accounts`), again whatever the snapshot settings,
and it too records only sound snapshots.
-/

namespace Custodian

-- Powers are those of the core library, whatever else is in scope; for that a numeral as an
-- exponent has its type.
attribute [local instance(1100)] instPowNat

/-- The windows that are made are the valid ones. -/
theorem Window.make_eq_ok {start stop : Int64} {window : Window}
    (h : Window.make start stop = .ok window) : window = ⟨start, stop⟩ ∧ window.Valid := by
  unfold Window.make at h
  rcases hlength : (Window.mk start stop).length with e | length
  · rw [hlength] at h
    cases h
  · rw [hlength] at h
    cases h
    refine ⟨rfl, ?_⟩
    unfold Window.length at hlength
    split at hlength
    · rename_i hsome
      cases hlength
      unfold Window.length? at hsome
      obtain ⟨hminus, hpos⟩ := Option.filter_eq_some_iff.mp hsome
      have hvalue : length.toInt = stop.toInt - start.toInt := Time.minus?_eq_some_iff.mp hminus
      rw [decide_eq_true_eq, Int64.lt_iff_toInt_lt, Int64.toInt_zero] at hpos
      have hmax := length.toInt_lt
      show start < stop ∧ stop.toInt - start.toInt < 2 ^ (63 : Nat)
      rw [Int64.lt_iff_toInt_lt]
      omega
    · cases hlength

/-- A window that is valid can be made. -/
theorem Window.make_of_valid {window : Window} (h : window.Valid) :
    Window.make window.start window.stop = .ok window := by
  obtain ⟨length, hlength, -, -⟩ := Window.length_of_valid h
  unfold Window.make
  rw [hlength]
  rfl

namespace Report

/-- The settings are valid, snapshots are used only where there are some and the report ends
within their horizon, the stamps of the ledger ascend, and the pages of every account can be
counted in 32 bits. -/
structure Regular (config : Config) (W : World) (stop : Int64) : Prop where
  settings : config.check = .ok ()
  snapshots : config.snapshotsEnabled = true → W.Reaches stop
  ordered : W.transfers.TimeOrdered
  fits : ∀ account stop,
    (W.transfers.ofAccount account stop).length ≤ config.transferPageSize * maxPage

variable {config : Config} {W : World} {window : Window} {start stop : Int64}

theorem Regular.walk (h : Regular config W window.stop) (hwindow : window.Valid)
    (account : Account) : (Walk.make config window account).Regular W :=
  ⟨hwindow, h.settings, h.snapshots, h.ordered, h.fits _ _⟩

theorem Regular.walk_of_make (h : Regular config W stop)
    (hwindow : Window.make start stop = .ok window) (account : Account) :
    (Walk.make config window account).Regular W := by
  obtain ⟨rfl, hvalid⟩ := Window.make_eq_ok hwindow
  exact h.walk hvalid account

/-! ## One account -/

/-- What the report on an account comes to if walks come to given results. -/
def accountFrom (walk : Window → Account → Except Error AccountCustody) (id : String)
    (start stop : Int64) : Except Error (Keyed AssetCustody) := do
  let window ← Window.make start stop
  let account ← Account.ofId id
  let custody ← walk window account
  return custody.assets

/-- A report on an account comes to what its walk comes to. -/
theorem ensures_accountFrom {C : Contract}
    {walk : Window → Account → Except Error AccountCustody}
    (hwalk : ∀ window account, Window.make start stop = .ok window →
      Dialogue.Ensures C (· = walk window account) (Walk.make config window account).run.run)
    (id : String) :
    Dialogue.Ensures C (· = accountFrom walk id start stop)
      (account config id start stop).run := by
  rw [Attempt.ensures_run_eq]
  unfold account accountFrom
  rw [Attempt.ensures_bind, Attempt.ensures_ofExcept]
  rcases hwindow : Window.make start stop with e | window
  · exact rfl
  rw [Attempt.ends_ok, Attempt.ensures_bind, Attempt.ensures_ofExcept]
  rcases Account.ofId id with e | account
  · exact rfl
  rw [Attempt.ends_ok, Attempt.ensures_bind]
  have hresult := Attempt.ensures_run_eq.mp (hwalk window account hwindow)
  refine hresult.mono (fun custody hcustody => ?_) fun e he => ?_
  · show (walk window account >>= fun custody => pure custody.assets) = _
    rw [hcustody]
    rfl
  · show (walk window account >>= fun custody => pure custody.assets) = _
    rw [he]
    rfl

/-- What the report on an account comes to. -/
def accountOutcome (config : Config) (W : World) (id : String) (start stop : Int64) :
    Except Error (Keyed AssetCustody) := do
  let window ← Window.make start stop
  let account ← Account.ofId id
  let custody ← (Walk.make config window account).outcome W
  return custody.assets

theorem ensures_account (h : Regular config W stop) (id : String) (start : Int64) :
    Dialogue.Ensures W.contract (· = accountOutcome config W id start stop)
      (account config id start stop).run :=
  ensures_accountFrom
    (fun _ account hwindow => Walk.ensures_run (h.walk_of_make hwindow account)) id

/-! ## A page of accounts -/

/-- What the report on a page of accounts comes to if they are listed as given and walks come
to given results. -/
def accountsFrom (listed : Except Error (Listing Account))
    (walk : Window → Account → Except Error AccountCustody) (start stop : Int64)
    (page : PageRequest) : Except Error (Listing AccountCustody) := do
  let window ← Window.make start stop
  page.check
  match listed with
  | .error e => throw (ledgerError e)
  | .ok listing =>
    let totals ← (listing.items.map (walk window)).mapM id
    return ⟨totals, listing.total⟩

/-- A report on a page of accounts comes to what its walks come to, or to the first failure
among them. -/
theorem ensures_accountsFrom {C : Contract} {listed : Except Error (Listing Account)}
    {walk : Window → Account → Except Error AccountCustody} {domain : Option String}
    {page : PageRequest} (hasked : C.asked (.accounts domain page) ∧ C.asked .writesWait)
    (hlisted : ∀ answer, C.allowed (.accounts domain page) answer → answer = listed)
    (hwalk : ∀ window account, Window.make start stop = .ok window →
      Dialogue.Ensures C (· = walk window account) (Walk.make config window account).run.run) :
    Dialogue.Ensures C (· = accountsFrom listed walk start stop page)
      (accounts config domain start stop page).run := by
  rw [Attempt.ensures_run_eq]
  unfold accounts accountsFrom
  rw [Attempt.ensures_bind, Attempt.ensures_ofExcept]
  rcases hwindow : Window.make start stop with e | window
  · exact rfl
  rw [Attempt.ends_ok, Attempt.ensures_bind, Attempt.ensures_ofExcept]
  rcases page.check with e | ⟨⟩
  · exact rfl
  rw [Attempt.ends_ok, Attempt.ensures_bind, Attempt.ensures_question]
  refine ⟨hasked.1, fun answer hallowed => ?_⟩
  have hanswer : answer = listed := hlisted answer hallowed
  rw [← hanswer]
  rcases answer with e | listing
  · exact rfl
  show Attempt.Ensures _ _ _ (Attempt.question .writesWait >>= _)
  rw [Attempt.ensures_bind, Attempt.ensures_question]
  refine ⟨hasked.2, fun waits _ => ?_⟩
  rw [Attempt.ensures_bind]
  have hwalks : List.Forall₂
      (fun (x : Attempt AccountCustody) result => Dialogue.Ensures C (· = result) x.run)
      (listing.items.map fun a => (Walk.make config window a).run)
      (listing.items.map (walk window)) := by
    rw [List.forall₂_map_left_iff, List.forall₂_map_right_iff, List.forall₂_same]
    exact fun a _ => hwalk window a hwindow
  -- the totals of all accounts, or the first failure, are those of the page
  have hpage : ∀ totals, (listing.items.map (walk window)).mapM id = totals →
      (do
        let totals ← (listing.items.map (walk window)).mapM id
        return (⟨totals, listing.total⟩ : Listing AccountCustody)) =
        totals.map fun totals => ⟨totals, listing.total⟩ := by
    intro totals htotals
    rw [htotals]
    rcases totals with e | totals
    · rfl
    · rfl
  refine (Attempt.ensures_run_eq.mp (Attempt.ensures_sideBySide hwalks)).mono
    (fun totals htotals => hpage _ htotals) fun e he => hpage _ he

/-- What the report on a page of accounts comes to. -/
def accountsOutcome (config : Config) (W : World) (domain : Option String) (start stop : Int64)
    (page : PageRequest) : Except Error (Listing AccountCustody) := do
  let window ← Window.make start stop
  page.check
  match W.accounts domain page with
  | .error e => throw (ledgerError e)
  | .ok listing =>
    let totals ← (listing.items.map fun a => (Walk.make config window a).outcome W).mapM id
    return ⟨totals, listing.total⟩

theorem ensures_accounts (h : Regular config W stop) (domain : Option String) (start : Int64)
    (page : PageRequest) :
    Dialogue.Ensures W.contract (· = accountsOutcome config W domain start stop page)
      (accounts config domain start stop page).run :=
  ensures_accountsFrom ⟨trivial, trivial⟩ (fun _ hallowed => hallowed)
    fun _ account hwindow => Walk.ensures_run (h.walk_of_make hwindow account)

end Report

end Custodian
