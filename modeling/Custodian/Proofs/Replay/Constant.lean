import Custodian.Proofs.Accrual.Constant
import Custodian.Proofs.Replay.Adjacent

/-!
# What is reported for a balance that stays the same

Transfers that do not move a balance still cut the window into intervals, and the share of each is
rounded. So the assets under custody of a constant balance are that balance times the sum of the
rounded shares (`Walk.totals_of_constant_balance`): they are the balance itself only where the
shares add up to one, which those of three equal parts do not (`Walk.auc_of_thirds`).
-/

namespace Custodian

-- Powers of integers are those of the core library, whatever else is in scope; for that a
-- numeral as an exponent has its type.
attribute [local instance(1100)] instPowNat

namespace Sample

/-- Alice receives fifty units at 10, and pays them to herself at 21 and at 22. -/
def turnover : Ledger :=
  let transfer (source : String) (occurredAt : Int64) : Transfer :=
    ⟨source, "alice@bank", "usd#bank", units 50, occurredAt, false⟩
  [⟨⟨1, 0, 0⟩, transfer "treasury@bank" 10⟩, ⟨⟨2, 0, 0⟩, transfer "alice@bank" 21⟩,
    ⟨⟨3, 0, 0⟩, transfer "alice@bank" 22⟩]

/-- The database of this ledger. -/
def turning : Database :=
  .ofTables { tables [] with transfers := some (turnover.map .ofRecorded) }

/-- Alice's walk from 20 on, without snapshots and with a custody period as long as the window. -/
def turningWalk (stop : Int64) : Walk :=
  Walk.make { Config.default.withSnapshots false with custodyPeriod := stop - 20 } ⟨20, stop⟩ account

theorem committed_turnover : turnover.committed = turnover.map fun r => r.transfer.stored :=
  Ledger.committed_of_pairwise (by decide)

end Sample

namespace Walk

variable {ledger : Ledger} {config : Config} {window : Window} {account : Account}
  {db : Database} {custody : AccountCustody} {asset : String} {totals : AssetCustody}

/-- The totals that a walk without snapshots reports for an asset are those that the replay of the
transfers it can read closes with. -/
theorem closing_of_resultOn (hrecords : db.tables.Records ledger) (hconfig : config.check = .ok ())
    (hdisabled : config.snapshotsEnabled = false) (hwindow : window.Valid)
    (hrun : (make config window account).resultOn db = .ok custody)
    (hreported : custody.assets.find? asset = some totals) :
    let w := make config window account
    ∃ fraction c, db.tables.findCustodyRate w.scope asset = .ok (some fraction) ∧
      checkFraction fraction = .ok () ∧
      w.closing fraction ((w.readable ledger.committed).ofAsset asset) = .ok c ∧
      c.custody = totals := by
  intro w
  obtain ⟨-, rfl⟩ := of_resultOn (w := w) hrecords hconfig hwindow hrun
  have hfound : (w.totalsOf (lookupsOn db) (w.readable ledger.committed)).find? asset =
      some totals := hreported
  rw [find?_totalsOf] at hfound
  obtain ⟨-, hfound⟩ := Option.ite_none_left_eq_some.mp hfound
  obtain ⟨fraction, hrate, hdirectory, hcheck⟩ := rate_of_totals hfound
  rw [totals_of_disabled hdisabled hrate] at hfound
  obtain ⟨c, hclosing, hcustody⟩ := Option.map_eq_some_iff.mp hfound
  exact ⟨fraction, c, hdirectory, hcheck, eq_ok_of_toOption hclosing, hcustody⟩

/-- With snapshots disabled, what is reported for an asset whose balance is the same throughout
the window, and whose replay rounds no sum and no product: the assets under custody are the
balance times the sum of the rounded shares. They are the balance itself if and only if it is zero
or the shares add up to one, as they do where each of them has at most eight digits, and never
miss it by more than half a unit of the eighth digit for each interval and each unit held. Where
the custody period is as long as the window, the fee is the fraction of the assets under custody.
-/
theorem totals_of_constant_balance (hrecords : db.tables.Records ledger)
    (hordered : ledger.committed.TimeOrdered) (hconfig : config.check = .ok ())
    (hdisabled : config.snapshotsEnabled = false) (hwindow : window.Valid)
    (hrun : (make config window account).resultOn db = .ok custody)
    (hreported : custody.assets.find? asset = some totals) :
    let w := make config window account
    let ts := (w.readable ledger.committed).ofAsset asset
    ∃ fraction, db.tables.findCustodyRate w.scope asset = .ok (some fraction) ∧
      ∀ held, ts.HoldsThroughout account.id window held →
        w.ExactFrom fraction (.fresh window.start) ts →
        totals.assetsUnderCustody.value = held * ts.shares window window.span ∧
        (totals.assetsUnderCustody.value = held ↔
          held = 0 ∨ ts.shares window window.span = 1) ∧
        ((∀ i ∈ ts.intervals window, window.span ∣ i.span * 10 ^ Decimal.ratioScale) →
          totals.assetsUnderCustody.value = held) ∧
        |totals.assetsUnderCustody.value - held| ≤
          1 / 2 / 10 ^ Decimal.ratioScale * ((ts.intervals window).length * |held|) ∧
        (window.length = .ok config.custodyPeriod →
          totals.fee.value = fraction.value * totals.assetsUnderCustody.value) := by
  intro w ts
  obtain ⟨fraction, c, hrate, hcheck, hclosing, rfl⟩ :=
    closing_of_resultOn hrecords hconfig hdisabled hwindow hrun hreported
  refine ⟨fraction, hrate, fun held hheld hexact => ?_⟩
  have htimes : ts.Pairwise fun a b => a.occurredAt ≤ b.occurredAt :=
    (pairwise_readable hordered).filter _
  have hbefore : ∀ t ∈ ts, t.occurredAt < window.stop := fun t ht =>
    lt_of_mem_readable (w := w) (Commits.mem_ofAsset.mp ht).1
  have hperiod : 0 < config.custodyPeriod := Config.custodyPeriod_pos hconfig
  obtain ⟨c', hclosing', hauc, hfee⟩ := closing_of_constant (w := w) hwindow hperiod hcheck htimes
    hbefore hexact hheld
  cases hclosing.symm.trans hclosing'
  obtain ⟨c', hclosing', hbound, -⟩ := abs_closing_sub_le (w := w) hwindow hperiod hcheck
    (value_pos_of_checkFraction hcheck).le htimes hbefore hexact
  cases hclosing.symm.trans hclosing'
  have hauc : c.auc.value = held * ts.shares window window.span := hauc
  have hiff : c.auc.value = held ↔ held = 0 ∨ ts.shares window window.span = 1 := by
    rw [hauc, mul_right_eq_self₀, or_comm]
  refine ⟨hauc, hiff, ?_, ?_, ?_⟩
  · intro hdvd
    exact hiff.mpr (.inr (Commits.shares_eq_one hwindow hdvd))
  · have hspan : (window.span : ℚ) ≠ 0 := by
      have hpos := (Window.span_of_valid hwindow).1
      positivity
    have htime : ts.balanceTime account.id window = held * window.span :=
      hheld.balanceTime hwindow.1
    have hsize : ts.balanceSize account.id window = (ts.intervals window).length * |held| :=
      hheld.balanceSize
    rw [← hsize]
    have hmean : ts.balanceTime account.id window / window.span = held := by
      rw [htime, mul_div_cancel_right₀ _ hspan]
    rw [← hmean]
    exact hbound
  · intro hlength
    have hspan : config.custodyPeriod.toInt.toNat = window.span :=
      (Context.period_eq_span hwindow hlength).2
    have hfee : c.fee.value =
        fraction.value * (held * ts.shares window config.custodyPeriod.toInt.toNat) := hfee
    show c.fee.value = fraction.value * c.auc.value
    rw [hfee, hspan, hauc]

/-- Over a window of four units of time the shares of the three intervals are exact. -/
theorem totals_of_turnover :
    let ts := ((Sample.turningWalk 24).readable Sample.turnover.committed).ofAsset "usd#bank"
    ts.HoldsThroughout "alice@bank" ⟨20, 24⟩ 50 ∧
      (Sample.turningWalk 24).ExactFrom Sample.fraction (.fresh 20) ts ∧
      ∃ custody totals, (Sample.turningWalk 24).resultOn Sample.turning = .ok custody ∧
        custody.assets.find? "usd#bank" = some totals ∧
        totals.assetsUnderCustody.value = 50 ∧
        totals.fee.value = Sample.fraction.value * totals.assetsUnderCustody.value := by
  intro ts
  have hcommitted := Sample.committed_turnover
  have hheld : ts.HoldsThroughout "alice@bank" ⟨20, 24⟩ 50 := by
    unfold ts
    rw [hcommitted]
    exact ⟨by decide +kernel, by decide +kernel⟩
  have hexact : (Sample.turningWalk 24).ExactFrom Sample.fraction (.fresh 20) ts := by
    unfold ts
    rw [hcommitted]
    decide +kernel
  have hordered : Sample.turnover.committed.TimeOrdered := by
    rw [hcommitted]
    decide
  let totals : AssetCustody :=
    ⟨⟨false, 5000, 3, by decide, by decide⟩, ⟨false, 5000, 2, by decide, by decide⟩⟩
  have hrun : (Sample.turningWalk 24).resultOn Sample.turning =
      .ok ⟨Sample.account.id, [("usd#bank", totals)]⟩ := by
    rw [@resultOn_eq _ Sample.turnover Sample.turning rfl (by decide) (by decide), hcommitted]
    decide +kernel
  obtain ⟨fraction, hrate, htotals⟩ := @totals_of_constant_balance Sample.turnover _ ⟨20, 24⟩
    Sample.account Sample.turning _ "usd#bank" totals rfl hordered (by decide) rfl (by decide) hrun
    rfl
  have hfound : Sample.turning.tables.findCustodyRate "custody_billing@bank" "usd#bank" =
      .ok (some Sample.fraction) := by decide +kernel
  cases hfound.symm.trans hrate
  obtain ⟨-, -, hauc, -, hfee⟩ := htotals 50 hheld hexact
  refine ⟨hheld, hexact, _, totals, hrun, rfl, hauc ?_, hfee (by decide)⟩
  unfold Commits.intervals Commits.moments
  rw [hcommitted, List.mergeSort_of_pairwise (by decide +kernel)]
  decide +kernel

/-- Over a window of three units of time they are a third each, and each is rounded down. So a
balance that is fifty units throughout comes to less than fifty, and the fee to less than a tenth
of them, although nothing else is rounded. -/
theorem auc_of_thirds :
    let w := Sample.turningWalk 23
    let ts := (w.readable Sample.turnover.committed).ofAsset "usd#bank"
    Sample.turning.tables.Records Sample.turnover ∧ Sample.turnover.committed.TimeOrdered ∧
      w.config.check = .ok () ∧ w.config.snapshotsEnabled = false ∧ w.window.Valid ∧
      w.window.length = .ok w.config.custodyPeriod ∧
      Sample.turning.tables.findCustodyRate w.scope "usd#bank" = .ok (some Sample.fraction) ∧
      ts.HoldsThroughout w.account w.window 50 ∧
      w.ExactFrom Sample.fraction (.fresh w.window.start) ts ∧
      ∃ custody totals, w.resultOn Sample.turning = .ok custody ∧
        custody.assets.find? "usd#bank" = some totals ∧
        totals.assetsUnderCustody.value < 50 ∧ totals.fee.value < Sample.fraction.value * 50 := by
  intro w ts
  have hcommitted := Sample.committed_turnover
  refine ⟨rfl, ?_, by decide, rfl, by decide, by decide, by decide +kernel, ?_, ?_, ?_⟩
  · rw [hcommitted]
    decide
  · unfold ts
    rw [hcommitted]
    exact ⟨by decide +kernel, by decide +kernel⟩
  · unfold ts
    rw [hcommitted]
    decide +kernel
  · let totals : AssetCustody :=
      ⟨⟨false, 4999999950, 9, by decide, by decide⟩, ⟨false, 4999999950, 8, by decide, by decide⟩⟩
    have hrun : w.resultOn Sample.turning = .ok ⟨Sample.account.id, [("usd#bank", totals)]⟩ := by
      rw [@resultOn_eq _ Sample.turnover Sample.turning rfl (by decide) (by decide), hcommitted]
      decide +kernel
    refine ⟨_, totals, hrun, rfl, ?_, ?_⟩
    · decide +kernel
    · decide +kernel

end Walk

end Custodian
