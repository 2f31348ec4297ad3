import Custodian.Proofs.Accrual.Timeline
import Custodian.Proofs.Snapshot.Seeding

/-!
# A walk comes to the reference

The totals of an account can be said asset by asset and without a walk (`Walk.reference`):
which assets are reported, and what for. A walk that succeeds without snapshots reports exactly
that, however the ledger is paged and however the transfers of several assets alternate
(`Walk.assets_eq_reference`).
-/

namespace Custodian

/-- What Alice comes to from 20 to 100. -/
def Sample.custody : AccountCustody :=
  ⟨"alice@bank", [("usd#bank",
    ⟨⟨false, 4922, 9, by decide, by decide⟩, ⟨false, 5350, 2, by decide, by decide⟩⟩)]⟩

/-- What the treasury comes to then: it owes what Alice holds. -/
def Sample.debt : AccountCustody :=
  ⟨"treasury@bank", [("usd#bank",
    ⟨⟨true, 4922, 9, by decide, by decide⟩, ⟨true, 5350, 2, by decide, by decide⟩⟩)]⟩

namespace Walk

variable {ledger : Ledger} {config : Config} {window : Window} {account : Account}
  {db : Database} {custody : AccountCustody}

/-- The totals of an asset as they should be. There are none without a transfer that counts or
without a rate in `(0, 1]`, and none where a sum overflows; otherwise they are those of the
timeline of its transfers. -/
def reference (w : Walk) (t : Tables) (ts : Commits) (asset : String) : Option AssetCustody :=
  let transfers := (ts.ofAccount w.account w.window.stop).ofAsset asset
  if transfers = [] then none
  else
    match t.findCustodyRate w.scope asset with
    | .ok (some fraction) =>
      if .zero < fraction ∧ fraction ≤ .one then w.timeline fraction transfers else none
    | _ => none

/-- With rates straight from a directory, the totals of an asset that has transfers are those
of the reference. -/
theorem custodyOf_eq_reference {w : Walk} {W : World} {t : Tables} (hregular : w.Regular W)
    (hrate : W.rate = RateMemo.empty.rate t) {asset : String}
    (hasset : (w.stream W).ofAsset asset ≠ []) :
    w.custodyOf W asset = w.reference t W.transfers asset := by
  have hjudge : W.rate w.scope asset =
      RateMemo.judge w.scope asset (t.findCustodyRate w.scope asset) := by rw [hrate]; rfl
  refine Eq.trans ?_ (if_neg hasset).symm
  rcases hfound : t.findCustodyRate w.scope asset with e | _ | fraction
  · rw [hfound] at hjudge
    exact custodyOf_of_error hjudge
  · rw [hfound] at hjudge
    exact custodyOf_of_error hjudge
  · rw [hfound] at hjudge
    show _ = if .zero < fraction ∧ fraction ≤ .one then _ else _
    by_cases hin : .zero < fraction ∧ fraction ≤ .one
    · have hok : checkFraction fraction = .ok () := checkFraction_eq_ok_iff.mpr hin
      have hfraction : W.rate w.scope asset = .ok fraction := by
        rw [hjudge, RateMemo.judge, hok]
        rfl
      rw [if_pos hin]
      unfold custodyOf
      rw [hfraction]
      refine toOption_closing hregular.window (Config.custodyPeriod_pos hregular.settings) hok ?_ ?_
      · exact (hregular.ordered.ofAccount _ _).filter _
      · intro t' ht'
        exact (Commits.mem_ofAccount.mp (Commits.mem_ofAsset.mp ht').1).2.2.2
    · rw [if_neg hin]
      rcases hcheck : checkFraction fraction with e | ⟨⟩
      · refine custodyOf_of_error (e := e) ?_
        rw [hjudge, RateMemo.judge, hcheck]
        rfl
      · exact absurd (checkFraction_eq_ok_iff.mp hcheck) hin

/-- A walk that succeeds without snapshots reports every asset as the reference has it, and
no other, as long as the pages of its stream can be counted in 32 bits. -/
theorem assets_eq_reference (hrecords : db.tables.Records ledger)
    (hordered : ledger.committed.TimeOrdered) (hconfig : config.check = .ok ())
    (hwindow : window.Valid)
    (hfits : (ledger.committed.ofAccount account.id window.stop).length ≤
      config.transferPageSize * maxPage)
    (hrun : (((make (config.withSnapshots false) window account).run.run.run
      (Session.answer Database.stores)).run ⟨.empty, db⟩).1 = .ok custody) :
    custody.account = account.id ∧ custody.assets.Sorted ∧ ∀ asset,
      custody.assets.find? asset =
        (make config window account).reference db.tables ledger.committed asset := by
  rw [run_eq_outcome ⟨.empty, db⟩ hrecords hordered hconfig hwindow hfits] at hrun
  have hregular : (make (config.withSnapshots false) window account).Regular
      (Session.world ⟨.empty, db⟩ ledger none) :=
    ⟨hwindow, hconfig, fun h => absurd h Bool.false_ne_true, hordered, hfits⟩
  unfold outcome at hrun
  split at hrun
  · cases hrun
  · cases hrun
    refine ⟨rfl, Keyed.sorted_tabulate _ _, fun asset => ?_⟩
    rw [Keyed.find?_tabulate]
    by_cases hmem : asset ∈ ((make config window account).stream
        (Session.world ⟨.empty, db⟩ ledger none)).map Transfer.asset
    · rw [if_pos hmem]
      exact custodyOf_eq_reference hregular rfl
        (mt Commits.ofAsset_eq_nil_iff.mp (not_not.mpr hmem))
    · rw [if_neg hmem]
      exact (if_pos (Commits.ofAsset_eq_nil_iff.mpr hmem)).symm

/-- Alice's fifty units for half of the window and fifty-seven for the other half. -/
theorem assets_sample_eq_reference :
    (((make (Config.default.withSnapshots false) ⟨20, 100⟩ Sample.account).run.run.run
        (Session.answer Database.stores)).run ⟨.empty, .ofTables (Sample.tables [])⟩).1 =
      .ok Sample.custody ∧
    (make .default ⟨20, 100⟩ Sample.account).reference (Sample.tables []) Sample.ledger.committed
        "usd#bank" = Sample.custody.assets.find? "usd#bank" := by
  have hfits : (Sample.ledger.committed.ofAccount Sample.account.id 100).length ≤
      Config.default.transferPageSize * maxPage := Nat.le_trans (Sample.fits _ _) (by decide)
  have hrun : (((make (Config.default.withSnapshots false) ⟨20, 100⟩ Sample.account).run.run.run
      (Session.answer Database.stores)).run ⟨.empty, .ofTables (Sample.tables [])⟩).1 =
      .ok Sample.custody := by
    rw [@run_eq_outcome Sample.ledger .default ⟨20, 100⟩ Sample.account _ (Sample.records [])
      Sample.timeOrdered (by decide) (by decide) hfits]
    unfold Session.world
    rw [Sample.committed_ledger]
    decide +kernel
  have h := @assets_eq_reference Sample.ledger .default ⟨20, 100⟩ Sample.account _ _
    (Sample.records []) Sample.timeOrdered (by decide) (by decide) hfits hrun
  exact ⟨hrun, (h.2.2 "usd#bank").symm⟩

end Walk

end Custodian
