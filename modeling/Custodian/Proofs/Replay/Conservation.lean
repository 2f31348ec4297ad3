import Custodian.Proofs.Accrual.Balance
import Custodian.Proofs.Replay.Adjacent

/-!
# Value is conserved across accounts

Each account is walked by itself, over its own pages of the ledger. What the book of its walk holds
for an asset at the end of the window (`Walk.settledOn`) is what it has received, less what it has
sent; so over all accounts that take part in transfers of the asset the balances add up to nothing
(`Walk.balances_conserved`), whatever the order of the stamps and the sizes of the pages.
-/

namespace Custodian

namespace Sample

/-- Alice pays seven units to Bob before she has received fifty, and three to herself. What Bob
pays at 100 comes too late. -/
def market : Ledger :=
  let transfer (source destination : String) (amount : UInt8) (occurredAt : Int64) : Transfer :=
    ⟨source, destination, "usd#bank", units amount, occurredAt, false⟩
  [⟨⟨1, 0, 0⟩, transfer "treasury@bank" "alice@bank" 50 60⟩,
    ⟨⟨2, 0, 0⟩, transfer "alice@bank" "bob@bank" 7 10⟩,
    ⟨⟨3, 0, 0⟩, transfer "alice@bank" "alice@bank" 3 70⟩,
    ⟨⟨4, 0, 0⟩, transfer "bob@bank" "treasury@bank" 1 100⟩]

/-- The accounts that take part. -/
def traders : List Account := [⟨"treasury", "bank"⟩, account, ⟨"bob", "bank"⟩]

/-- The database of the market. -/
def trading : Database :=
  .ofTables { tables [] with transfers := some (market.map .ofRecorded) }

theorem committed_market : market.committed = market.map fun r => r.transfer.stored :=
  Ledger.committed_of_pairwise (by decide)

end Sample

namespace Walk

variable {w : Walk} {ledger : Ledger} {db : Database} {custody : AccountCustody} {asset : String}
  {totals : AssetCustody}

/-! ## The book at the end of the window -/

/-- The book of a walk by itself, once it has replayed its transfers. -/
def bookOn (w : Walk) (db : Database) : Except Error AccountBook :=
  (((w.replayPages 1 (.empty w.account)).run.run (Session.answer Database.stores)).run
    ⟨.empty, db⟩).1

/-- The context of an asset in this book, settled up to the end of the window. -/
def settledOn (w : Walk) (db : Database) (asset : String) : Option Context := do
  let book ← (w.bookOn db).toOption
  let st ← book.find? asset
  (st.context.settle w.window w.window.stop st.fraction w.config.custodyPeriod).toOption

/-- What an account holds of an asset at the end of the window. -/
def heldAtStop (w : Walk) (db : Database) (asset : String) : ℚ :=
  ((w.settledOn db asset).map fun c => c.balance.value).getD 0

/-- Without an error the book is right about every asset, after the transfers that are read. -/
theorem reflects_bookOn {ts : Commits} (hconfig : w.config.check = .ok ())
    (hwindow : w.window.Valid) (hreading : w.reading (lookupsOn db) 1 = (ts, none))
    (hfree : w.failure? (lookupsOn db) (w.reading (lookupsOn db) 1) = none) :
    ∃ book, w.bookOn db = .ok book ∧ Reflects w (lookupsOn db) ts book := by
  have hends : Attempt.Ends
      (fun book => w.failure? (lookupsOn db) (w.reading (lookupsOn db) 1) = none ∧
        Reflects w (lookupsOn db) ([] ++ (w.reading (lookupsOn db) 1).1) book)
      (fun e => w.failure? (lookupsOn db) (w.reading (lookupsOn db) 1) = some e) (w.bookOn db) :=
    (Session.of_unreliable (Session.reads_self .empty db w.window.start)
      (ensures_reflects_replayPages hwindow hconfig 1 reflects_empty)
      (Session.runsTo_unreliable Database.stores _ _)).1
  rw [hfree, hreading] at hends
  rcases hbook : w.bookOn db with e | book
  · rw [hbook] at hends
    cases hends
  · rw [hbook] at hends
    exact ⟨book, rfl, hends.2⟩

/-- The totals of an asset that is reported are those of its context in the book, whose balance is
the sum of the transfers. -/
theorem settledOn_of_reported (hrecords : db.tables.Records ledger)
    (hconfig : w.config.check = .ok ()) (hdisabled : w.config.snapshotsEnabled = false)
    (hwindow : w.window.Valid) (hrun : w.resultOn db = .ok custody)
    (hreported : custody.assets.find? asset = some totals) :
    ∃ c, w.settledOn db asset = some c ∧ c.custody = totals ∧ c.control = w.window.stop ∧
      ((w.readable ledger.committed).ofAsset asset).balance w.account = some c.balance := by
  obtain ⟨hfree, rfl⟩ := of_resultOn hrecords hconfig hwindow hrun
  obtain ⟨book, hbook, hreflects⟩ := reflects_bookOn hconfig hwindow
    (reading_eq_readable hrecords rfl hconfig)
    ((failure?_eq_blocked hrecords hconfig).trans (List.findSome?_eq_none_iff.mpr hfree))
  have hfound : (w.totalsOf (lookupsOn db) (w.readable ledger.committed)).find? asset =
      some totals := hreported
  rw [find?_totalsOf] at hfound
  obtain ⟨hne, hfound⟩ := Option.ite_none_left_eq_some.mp hfound
  obtain ⟨fraction, hrate, -, -⟩ := rate_of_totals hfound
  have hstands := hreflects.stands asset
  generalize hstate : book.find? asset = state at hstands
  generalize book.isSkipped asset = skipped at hstands
  rcases hstands with hnil | ⟨e, -, -, he⟩ | ⟨st, last, -, hst⟩
  · exact absurd hnil hne
  · rw [totals_of_error he] at hfound
    cases hfound
  · rw [totals_of_ok hst] at hfound
    obtain ⟨c, hsettle, hcustody⟩ := Option.map_eq_some_iff.mp hfound
    rw [progress_of_disabled hdisabled hrate] at hst
    obtain ⟨opened, haccrual, rfl⟩ : ∃ opened, w.accrual fraction
        ((w.readable ledger.committed).ofAsset asset) = .ok opened ∧
          (⟨opened, fraction, none, none⟩ : AssetState) = st := by
      rcases haccrual : w.accrual fraction ((w.readable ledger.committed).ofAsset asset) with
        e | opened
      · rw [haccrual] at hst
        cases hst
      · rw [haccrual] at hst
        exact ⟨opened, rfl, Except.ok.inj hst⟩
    have hsettled := eq_ok_of_toOption hsettle
    have hbefore : opened.control ≤ w.window.stop := by
      rcases (reach_of_advance haccrual).2.2 with heq | ⟨t, ht, heq⟩
      · rw [heq]
        exact Int64.le_of_lt hwindow.1
      · rw [heq]
        exact Int64.le_of_lt (lt_of_mem_readable (w := w) (Commits.mem_ofAsset.mp ht).1)
    refine ⟨c, ?_, hcustody, Context.control_eq_of_settle hbefore hsettled, ?_⟩
    · unfold settledOn
      rw [hbook]
      show (book.find? asset).bind _ = _
      rw [hstate]
      exact hsettle
    · rw [balance_of_accrual haccrual, (Context.frame_of_settle hsettled).1]

/-! ## All accounts -/

variable {window : Window} {accounts : List Account} {config : Account → Config}

/-- With snapshots disabled, let all accounts that take part in transfers of an asset that count
before the end of a window be walked, each by itself and with settings of its own. If all of them
report the asset, and no balance has to be rounded on the way, each of them holds at the end of the
window what it has received, less what it has sent, and together they hold nothing. The stamps may
be in any order, as long as the pages of an account can be counted in 32 bits. -/
theorem balances_conserved (hrecords : db.tables.Records ledger) (hwindow : window.Valid)
    (hnodup : (accounts.map Account.id).Nodup)
    (hall : ∀ t ∈ ledger.committed.counting asset window.stop,
      t.source ∈ accounts.map Account.id ∧ t.destination ∈ accounts.map Account.id)
    (hconfig : ∀ a ∈ accounts, (config a).check = .ok () ∧ (config a).snapshotsEnabled = false)
    (hfits : ∀ a ∈ accounts, (ledger.committed.ofAccount a.id window.stop).length ≤
      (config a).transferPageSize * maxPage)
    (hsums : ∀ a ∈ accounts,
      ((ledger.committed.ofAccount a.id window.stop).ofAsset asset).SumsExactly a.id .zero)
    (hreported : ∀ a ∈ accounts, ∃ custody, (make (config a) window a).resultOn db = .ok custody ∧
      custody.assets.find? asset ≠ none) :
    let transfers := ledger.committed.counting asset window.stop
    (∀ a ∈ accounts, ∃ c, (make (config a) window a).settledOn db asset = some c ∧
      c.control = window.stop ∧
      c.balance.value = transfers.received a.id - transfers.sent a.id) ∧
    (accounts.map fun a => (make (config a) window a).heldAtStop db asset).sum = 0 := by
  intro transfers
  have heach : ∀ a ∈ accounts, ∃ c, (make (config a) window a).settledOn db asset = some c ∧
      c.control = window.stop ∧ c.balance.value = transfers.moved a.id := by
    intro a ha
    obtain ⟨custody, hrun, hsome⟩ := hreported a ha
    obtain ⟨totals, htotals⟩ := Option.ne_none_iff_exists'.mp hsome
    let w := make (config a) window a
    obtain ⟨c, hsettled, -, hcontrol, hbalance⟩ := settledOn_of_reported (w := w) hrecords
      (hconfig a ha).1 (hconfig a ha).2 hwindow hrun htotals
    rw [readable_of_fits (w := w) (hfits a ha)] at hbalance
    obtain ⟨held, hheld, hvalue⟩ := (hsums a ha).balanceFrom
    cases hheld.symm.trans hbalance
    rw [Decimal.value_zero, zero_add, Commits.moved_ofAccount] at hvalue
    exact ⟨c, hsettled, hcontrol, hvalue⟩
  refine ⟨fun a ha => ?_, ?_⟩
  · obtain ⟨c, hsettled, hcontrol, hvalue⟩ := heach a ha
    rw [Commits.moved_eq_received_sub_sent] at hvalue
    exact ⟨c, hsettled, hcontrol, hvalue⟩
  · have hmoved : (accounts.map fun a => (make (config a) window a).heldAtStop db asset) =
        (accounts.map Account.id).map fun id => transfers.moved id := by
      rw [List.map_map]
      refine List.map_congr_left fun a ha => ?_
      obtain ⟨c, hsettled, -, hvalue⟩ := heach a ha
      unfold heldAtStop
      rw [hsettled]
      exact hvalue
    rw [hmoved]
    exact Commits.sum_moved hnodup hall

/-- The three accounts of the market, on pages of one transfer each. -/
theorem balances_of_traders :
    let config : Config := { Config.default.withSnapshots false with transferPageSize := 1 }
    let transfers := Sample.market.committed.counting "usd#bank" 100
    (∀ a ∈ Sample.traders, ∃ c,
      (make config ⟨20, 100⟩ a).settledOn Sample.trading "usd#bank" = some c ∧
        c.control = 100 ∧ c.balance.value = transfers.received a.id - transfers.sent a.id) ∧
      (Sample.traders.map fun a =>
        (make config ⟨20, 100⟩ a).heldAtStop Sample.trading "usd#bank").sum = 0 := by
  intro config transfers
  have hcommitted := Sample.committed_market
  have hconfig : config.check = .ok () := by decide
  have hwindow : (Window.mk 20 100).Valid := by decide
  refine @balances_conserved Sample.market Sample.trading "usd#bank" ⟨20, 100⟩ Sample.traders
    (fun _ => config) rfl hwindow (by decide) ?_ (fun _ _ => ⟨hconfig, rfl⟩) ?_ ?_ ?_
  · rw [hcommitted]
    decide +kernel
  · rw [hcommitted]
    decide +kernel
  · rw [hcommitted]
    decide +kernel
  · intro a ha
    have hsome : (((make config ⟨20, 100⟩ a).resultOn Sample.trading).toOption.bind fun custody =>
        custody.assets.find? "usd#bank").isSome := by
      rw [@resultOn_eq (make config ⟨20, 100⟩ a) Sample.market Sample.trading rfl hconfig hwindow,
        hcommitted]
      revert a
      decide +kernel
    obtain ⟨totals, htotals⟩ := Option.isSome_iff_exists.mp hsome
    obtain ⟨custody, hcustody, hfound⟩ := Option.bind_eq_some_iff.mp htotals
    refine ⟨custody, eq_ok_of_toOption hcustody, ?_⟩
    rw [hfound]
    exact Option.some_ne_none totals

end Walk

end Custodian
