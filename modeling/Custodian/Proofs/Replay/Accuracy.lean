import Custodian.Proofs.Accrual.Accuracy
import Custodian.Proofs.Replay.Reference

/-!
# How accurate a report is

What a walk without snapshots reports for an asset misses the integral of its balance over the
window by the rounding of the shares of time and by nothing else, as long as no sum and no product
on the way has to be rounded (`Walk.totals_within_share_rounding`). The bound grows with the number
of intervals, and balances count with their size, so it covers balances below zero as well.
-/

namespace Custodian

-- Powers of integers are those of the core library, whatever else is in scope; for that a
-- numeral as an exponent has its type.
attribute [local instance(1100)] instPowNat

/-- The fraction that the bank charges. -/
def Sample.fraction : Decimal := ⟨false, 1, 1, Decimal.one.mantissa_lt, by decide⟩

namespace Walk

variable {ledger : Ledger} {config : Config} {window : Window} {account : Account}
  {db : Database} {custody : AccountCustody} {asset : String} {totals : AssetCustody}

/-- The totals that a walk without snapshots reports for an asset are those that its replay closes
with, at the fraction that the directory has. -/
theorem closing_of_reported (hrecords : db.tables.Records ledger)
    (hordered : ledger.committed.TimeOrdered) (hconfig : config.check = .ok ())
    (hwindow : window.Valid)
    (hfits : (ledger.committed.ofAccount account.id window.stop).length ≤
      config.transferPageSize * maxPage)
    (hrun : (((make (config.withSnapshots false) window account).run.run.run
      (Session.answer Database.stores)).run ⟨.empty, db⟩).1 = .ok custody)
    (hreported : custody.assets.find? asset = some totals) :
    ∃ fraction c, db.tables.findCustodyRate (make config window account).scope asset =
        .ok (some fraction) ∧ checkFraction fraction = .ok () ∧
      (make config window account).closing fraction
          ((ledger.committed.ofAccount account.id window.stop).ofAsset asset) = .ok c ∧
      c.custody = totals := by
  rw [run_eq_outcome ⟨.empty, db⟩ hrecords hordered hconfig hwindow hfits] at hrun
  unfold outcome at hrun
  split at hrun
  · cases hrun
  · cases hrun
    rw [Keyed.find?_tabulate] at hreported
    obtain ⟨-, hcustody⟩ := Option.ite_none_right_eq_some.mp hreported
    unfold custodyOf at hcustody
    split at hcustody
    · cases hcustody
    · rename_i fraction hrate
      obtain ⟨c, hclosing, hc⟩ := Option.map_eq_some_iff.mp hcustody
      obtain ⟨hfound, hcheck⟩ := RateMemo.judge_eq_ok_iff.mp hrate
      exact ⟨fraction, c, hfound, hcheck, eq_ok_of_toOption hclosing, hc⟩

/-- With snapshots disabled, the totals reported for an asset whose replay rounds no sum and no
product differ from the integral of its balance over the window by at most half a unit of the
eighth digit for each interval and each unit held in it. -/
theorem totals_within_share_rounding (hrecords : db.tables.Records ledger)
    (hordered : ledger.committed.TimeOrdered) (hconfig : config.check = .ok ())
    (hwindow : window.Valid)
    (hfits : (ledger.committed.ofAccount account.id window.stop).length ≤
      config.transferPageSize * maxPage)
    (hrun : (((make (config.withSnapshots false) window account).run.run.run
      (Session.answer Database.stores)).run ⟨.empty, db⟩).1 = .ok custody)
    (hreported : custody.assets.find? asset = some totals) :
    let w := make config window account
    let ts := (ledger.committed.ofAccount account.id window.stop).ofAsset asset
    ∃ fraction, db.tables.findCustodyRate w.scope asset = .ok (some fraction) ∧
      (w.ExactFrom fraction (.fresh window.start) ts →
        |totals.assetsUnderCustody.value - ts.balanceTime account.id window / window.span| ≤
          1 / 2 / 10 ^ Decimal.ratioScale * ts.balanceSize account.id window ∧
        |totals.fee.value - fraction.value *
            (ts.balanceTime account.id window / config.custodyPeriod.toInt.toNat)| ≤
          1 / 2 / 10 ^ Decimal.ratioScale *
            (fraction.value * ts.balanceSize account.id window)) := by
  intro w ts
  obtain ⟨fraction, c, hrate, hcheck, hclosing, rfl⟩ :=
    closing_of_reported hrecords hordered hconfig hwindow hfits hrun hreported
  refine ⟨fraction, hrate, fun hexact => ?_⟩
  have htimes : ts.Pairwise fun a b => a.occurredAt ≤ b.occurredAt :=
    (hordered.ofAccount _ _).filter _
  have hbefore : ∀ t ∈ ts, t.occurredAt < window.stop := fun t ht =>
    (Commits.mem_ofAccount.mp (Commits.mem_ofAsset.mp ht).1).2.2.2
  obtain ⟨c', hclosing', hauc, hfee⟩ := abs_closing_sub_le (w := w) hwindow
    (Config.custodyPeriod_pos hconfig) hcheck (value_pos_of_checkFraction hcheck).le htimes hbefore
    hexact
  cases hclosing.symm.trans hclosing'
  exact ⟨hauc, hfee⟩

/-- Alice's totals, with the fifty-seven units she holds in the end. -/
theorem totals_sample_within_share_rounding :
    let ts := (Sample.ledger.committed.ofAccount "alice@bank" 100).ofAsset "usd#bank"
    (make .default ⟨20, 100⟩ Sample.account).ExactFrom Sample.fraction (.fresh 20) ts ∧
      |(5350 / 10 ^ 2 : ℚ) - ts.balanceTime "alice@bank" ⟨20, 100⟩ / 80| ≤
        1 / 2 / 10 ^ Decimal.ratioScale * ts.balanceSize "alice@bank" ⟨20, 100⟩ := by
  intro ts
  have hfits : (Sample.ledger.committed.ofAccount Sample.account.id 100).length ≤
      Config.default.transferPageSize * maxPage := Nat.le_trans (Sample.fits _ _) (by decide)
  have hrun : (((make (Config.default.withSnapshots false) ⟨20, 100⟩ Sample.account).run.run.run
      (Session.answer Database.stores)).run ⟨.empty, .ofTables (Sample.tables [])⟩).1 =
      .ok Sample.custody := by
    rw [@run_eq_outcome Sample.ledger .default ⟨20, 100⟩ Sample.account _ (Sample.records [])
      Sample.timeOrdered (by decide) (by decide) hfits]
    unfold Session.world
    rw [Sample.committed_ledger]
    decide +kernel
  have hexact : (make .default ⟨20, 100⟩ Sample.account).ExactFrom Sample.fraction (.fresh 20) ts := by
    unfold ts
    rw [Sample.committed_ledger]
    decide +kernel
  obtain ⟨fraction, hrate, htotals⟩ := @totals_within_share_rounding Sample.ledger .default ⟨20, 100⟩
    Sample.account _ _ "usd#bank" _ (Sample.records []) Sample.timeOrdered (by decide) (by decide)
    hfits hrun rfl
  have hfound : (Sample.tables []).findCustodyRate "custody_billing@bank" "usd#bank" =
      .ok (some Sample.fraction) := by decide +kernel
  cases hfound.symm.trans hrate
  exact ⟨hexact, (htotals hexact).1⟩

end Walk

end Custodian
