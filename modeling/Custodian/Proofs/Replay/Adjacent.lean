import Custodian.Proofs.Accrual.Adjacent
import Custodian.Proofs.Database.Lookups
import Custodian.Proofs.Replay.Accuracy
import Custodian.Proofs.Replay.Result

/-!
# Fees over adjacent windows add up

Two walks over adjacent windows and one over both of them replay the same ledger: the transfers of
the first window are an opening balance of the second one. If the walk over both succeeds so do
the others, and the fees that they report for an asset add up to its fee, but for the rounding of
the shares of the one interval that the windows split (`Walk.fees_of_adjacent_windows`).

Pages are counted in 32 bits. What is said here is about the transfers on those pages, whether
there are more of them or not (`Walk.readable`).
-/

namespace Custodian

-- Powers of integers are those of the core library, whatever else is in scope; for that a
-- numeral as an exponent has its type.
attribute [local instance(1100)] instPowNat

/-- The fee of an asset in a report, nothing if it is not reported. -/
def AccountCustody.feeOf (custody : AccountCustody) (asset : String) : ℚ :=
  ((custody.assets.find? asset).map fun totals => totals.fee.value).getD 0

namespace Walk

variable {w : Walk} {L : Lookups} {ledger : Ledger} {db : Database} {custody : AccountCustody}
  {asset : String} {totals : AssetCustody} {fraction : Decimal} {ts : Commits} {mid : Int64}

/-! ## A walk without snapshots -/

/-- The transfers that a walk can read: those of its account that count for its window, on the
pages that can be counted in 32 bits. -/
def readable (w : Walk) (ts : Commits) : Commits :=
  (ts.ofAccount w.account w.window.stop).take (w.config.transferPageSize * maxPage)

/-- Where the pages can be counted a walk can read all of them. -/
theorem readable_of_fits (hfits : (ts.ofAccount w.account w.window.stop).length ≤
    w.config.transferPageSize * maxPage) : w.readable ts = ts.ofAccount w.account w.window.stop :=
  List.take_of_length_le hfits

theorem pairwise_readable (hordered : ts.TimeOrdered) :
    (w.readable ts).Pairwise fun a b => a.occurredAt ≤ b.occurredAt :=
  (hordered.ofAccount _ _).sublist (List.take_sublist _ _)

theorem lt_of_mem_readable {t : Transfer} (h : t ∈ w.readable ts) :
    t.occurredAt < w.window.stop :=
  (Commits.mem_ofAccount.mp (List.mem_of_mem_take h)).2.2.2

/-- A walk over an earlier window can read the transfers from before its end. -/
theorem readable_during (hordered : ts.TimeOrdered) {window : Window}
    (hstop : window.stop ≤ w.window.stop) :
    (w.during window).readable ts = (w.readable ts).before window.stop := by
  unfold readable
  rw [Commits.before_take (hordered.ofAccount _ _), Commits.before_ofAccount hstop]
  rfl

/-- What a walk by itself ends in on a database. -/
def resultOn (w : Walk) (db : Database) : Except Error AccountCustody :=
  ((w.run.run.run (Session.answer Database.stores)).run ⟨.empty, db⟩).1

/-- The look-ups in a database that is asked for each rate anew. -/
abbrev lookupsOn (db : Database) : Lookups := db.tables.lookups (RateMemo.empty.rate db.tables)

/-- The totals of assets with transfers among some. -/
def totalsOf (w : Walk) (L : Lookups) (ts : Commits) : Keyed AssetCustody :=
  .tabulate (fun asset => w.totals L asset (ts.ofAsset asset)) (ts.map Transfer.asset)

theorem find?_totalsOf :
    (w.totalsOf L ts).find? asset =
      if ts.ofAsset asset = [] then none else w.totals L asset (ts.ofAsset asset) := by
  unfold totalsOf
  rw [Keyed.find?_tabulate]
  by_cases hnil : ts.ofAsset asset = []
  · rw [if_pos hnil, if_neg (Commits.ofAsset_eq_nil_iff.mp hnil)]
  · rw [if_neg hnil, if_pos (Decidable.not_not.mp (mt Commits.ofAsset_eq_nil_iff.mpr hnil))]

/-- On a recorded ledger a walk reads the transfers that it can read, and meets no error in it. -/
theorem reading_eq_readable (hrecords : db.tables.Records ledger)
    (htransfers : L.transfers = db.tables.listTransfers) (hconfig : w.config.check = .ok ()) :
    w.reading L 1 = (w.readable ledger.committed, none) := by
  have hmax : max 1 maxPage = maxPage := Nat.max_eq_right (by decide)
  rw [reading_of_counted hrecords htransfers (Config.transferPageSize_pos hconfig) 1 Nat.one_pos,
    hmax, Nat.sub_self, Nat.zero_mul, List.drop_zero, ← readable]

/-- All that can fail then are rates. -/
theorem failure?_eq_blocked (hrecords : db.tables.Records ledger)
    (hconfig : w.config.check = .ok ()) :
    w.failure? (lookupsOn db) (w.reading (lookupsOn db) 1) =
      (w.readable ledger.committed).findSome? fun t => w.blocked? (lookupsOn db) t.asset := by
  rw [reading_eq_readable hrecords rfl hconfig]
  exact Option.or_none

/-- On a recorded ledger a walk ends in the first error of a rate, or in the totals of the
transfers that it can read. -/
theorem resultOn_eq (hrecords : db.tables.Records ledger) (hconfig : w.config.check = .ok ())
    (hwindow : w.window.Valid) :
    w.resultOn db =
      match (w.readable ledger.committed).findSome? fun t => w.blocked? (lookupsOn db) t.asset with
      | some e => .error e
      | none => .ok ⟨w.account, w.totalsOf (lookupsOn db) (w.readable ledger.committed)⟩ := by
  have hresult : w.resultOn db = w.result (lookupsOn db) :=
    (Session.of_unreliable (Session.reads_self .empty db w.window.start)
      (ensures_result (lookupsOn db) hwindow hconfig)
      (Session.runsTo_unreliable Database.stores _ _)).1
  have hfailure := failure?_eq_blocked (w := w) hrecords hconfig
  rw [hresult]
  split
  · rename_i e hsome
    exact result_of_failure (hfailure.trans hsome)
  · rename_i hnone
    rw [result_of_reading (hfailure.trans hnone), reading_eq_readable hrecords rfl hconfig]
    rfl

/-- A walk that succeeds meets no error of a rate on the way. -/
theorem of_resultOn (hrecords : db.tables.Records ledger) (hconfig : w.config.check = .ok ())
    (hwindow : w.window.Valid) (h : w.resultOn db = .ok custody) :
    (∀ t ∈ w.readable ledger.committed, w.blocked? (lookupsOn db) t.asset = none) ∧
      custody = ⟨w.account, w.totalsOf (lookupsOn db) (w.readable ledger.committed)⟩ := by
  rw [resultOn_eq hrecords hconfig hwindow] at h
  split at h
  · cases h
  · rename_i hnone
    cases h
    exact ⟨List.findSome?_eq_none_iff.mp hnone, rfl⟩

/-- Without errors of rates a walk succeeds. -/
theorem resultOn_of_free (hrecords : db.tables.Records ledger) (hconfig : w.config.check = .ok ())
    (hwindow : w.window.Valid)
    (hfree : ∀ t ∈ w.readable ledger.committed, w.blocked? (lookupsOn db) t.asset = none) :
    w.resultOn db =
      .ok ⟨w.account, w.totalsOf (lookupsOn db) (w.readable ledger.committed)⟩ := by
  rw [resultOn_eq hrecords hconfig hwindow, List.findSome?_eq_none_iff.mpr hfree]

/-- Without snapshots an asset is replayed from its first transfer. -/
theorem progress_of_disabled (hdisabled : w.config.snapshotsEnabled = false)
    (hrate : L.rate w.scope asset = .ok fraction) :
    w.progress L asset ts = (w.accrual fraction ts).map fun c => ⟨c, fraction, none, none⟩ := by
  have hstate : w.policy.stateFrom (L.snapshot w.account asset w.window.start) w.window fraction =
      .genesis w.window fraction := by
    unfold SnapshotPolicy.stateFrom policy SnapshotPolicy.ofConfig
    rw [hdisabled]
    exact if_neg Bool.false_ne_true
  have hall : (AssetState.genesis w.window fraction).unfolded ts = ts :=
    List.filter_eq_self.mpr fun t _ => rfl
  unfold progress
  rw [opening_of_ok hrate, hstate]
  show w.advance fraction (.fresh w.window.start) (AssetState.unfolded _ ts) >>= _ = _
  rw [hall]
  rfl

/-- Without snapshots the totals of an asset are those that its replay closes with. -/
theorem totals_of_disabled (hdisabled : w.config.snapshotsEnabled = false)
    (hrate : L.rate w.scope asset = .ok fraction) :
    w.totals L asset ts = (w.closing fraction ts).toOption.map Context.custody := by
  unfold totals closing
  rw [progress_of_disabled hdisabled hrate]
  rcases w.accrual fraction ts with e | c
  · rfl
  · rfl

/-- An asset with totals has a rate that can be charged. -/
theorem rate_of_totals (h : w.totals (lookupsOn db) asset ts = some totals) :
    ∃ fraction, (lookupsOn db).rate w.scope asset = .ok fraction ∧
      db.tables.findCustodyRate w.scope asset = .ok (some fraction) ∧
      checkFraction fraction = .ok () := by
  rcases hrate : (lookupsOn db).rate w.scope asset with e | fraction
  · rw [totals_of_error (progress_of_error hrate)] at h
    cases h
  · obtain ⟨hfound, hcheck⟩ := RateMemo.judge_eq_ok_iff.mp hrate
    exact ⟨fraction, rfl, hfound, hcheck⟩

/-! ## Three walks -/

/-- An asset is reported if it has a transfer, and then with the fee of its replay. -/
theorem feeOf_totalsOf {account : String} {fee : ℚ} (hdisabled : w.config.snapshotsEnabled = false)
    (hrate : L.rate w.scope asset = .ok fraction) (hnil : ts.ofAsset asset = [] → fee = 0)
    (hsome : ts.ofAsset asset ≠ [] →
      ∃ c, w.closing fraction (ts.ofAsset asset) = .ok c ∧ c.fee.value = fee) :
    ((w.totalsOf L ts).find? asset = none ↔ ts.ofAsset asset = []) ∧
      AccountCustody.feeOf ⟨account, w.totalsOf L ts⟩ asset = fee := by
  unfold AccountCustody.feeOf
  rw [find?_totalsOf]
  by_cases hempty : ts.ofAsset asset = []
  · rw [if_pos hempty, hnil hempty]
    exact ⟨⟨fun _ => hempty, fun _ => rfl⟩, rfl⟩
  · obtain ⟨c, hclosing, hfee⟩ := hsome hempty
    rw [if_neg hempty, totals_of_disabled hdisabled hrate, hclosing]
    exact ⟨⟨fun hnone => (nomatch hnone), fun heq => absurd heq hempty⟩, hfee⟩

variable {config : Config} {account : Account} {start stop : Int64}

/-- With snapshots disabled, a walk over a window that succeeds can be made over the two windows
that an instant cuts it into. For an asset that is reported, and whose replays round no sum and no
product, the fees over the two add up to its fee up to three times half a unit of the eighth digit
for each unit held just before the instant, and exactly if one of its transfers is stamped at the
instant. In the first window it is reported if it has a transfer there. -/
theorem fees_of_adjacent_windows (hrecords : db.tables.Records ledger)
    (hordered : ledger.committed.TimeOrdered) (hconfig : config.check = .ok ())
    (hdisabled : config.snapshotsEnabled = false) (hwindow : (Window.mk start stop).Valid)
    (hearly : start < mid) (hlate : mid < stop)
    (hrun : (make config ⟨start, stop⟩ account).resultOn db = .ok custody)
    (hreported : custody.assets.find? asset = some totals) :
    let w := make config ⟨start, stop⟩ account
    let ts := (w.readable ledger.committed).ofAsset asset
    ∃ fraction early late,
      db.tables.findCustodyRate w.scope asset = .ok (some fraction) ∧
      (make config ⟨start, mid⟩ account).resultOn db = .ok early ∧
      (make config ⟨mid, stop⟩ account).resultOn db = .ok late ∧
      (w.ExactFrom fraction (.fresh start) ts →
        (ts.before mid ≠ [] → (make config ⟨start, mid⟩ account).ExactFrom fraction
          (.fresh start) (ts.before mid)) →
        (make config ⟨mid, stop⟩ account).ExactFrom fraction (.fresh mid) ts →
        ∃ held, (ts.before mid).balance account.id = some held ∧
          (early.assets.find? asset = none ↔ ts.before mid = []) ∧
          late.assets.find? asset ≠ none ∧
          |custody.feeOf asset - (early.feeOf asset + late.feeOf asset)| ≤
            3 / 2 / 10 ^ 8 * (fraction.value * |held.value|) ∧
          ((∃ t ∈ ts, t.occurredAt = mid) →
            custody.feeOf asset = early.feeOf asset + late.feeOf asset)) := by
  intro w ts
  let L := lookupsOn db
  let first := make config ⟨start, mid⟩ account
  let second := make config ⟨mid, stop⟩ account
  obtain ⟨hfree, rfl⟩ := of_resultOn (w := w) hrecords hconfig hwindow hrun
  have hfirst : first.readable ledger.committed = (w.readable ledger.committed).before mid :=
    readable_during (w := w) hordered (Int64.le_of_lt hlate)
  have hfirstTransfers : (first.readable ledger.committed).ofAsset asset = ts.before mid := by
    rw [hfirst, ← Commits.before_ofAsset]
  have hearlyRun := resultOn_of_free (w := first) hrecords hconfig
    (Window.valid_of_within hwindow hearly (Int64.le_refl _) (Int64.le_of_lt hlate)) fun t ht =>
      hfree t (List.mem_of_mem_filter (hfirst ▸ ht))
  have hlateRun := resultOn_of_free (w := second) hrecords hconfig
    (Window.valid_of_within hwindow hlate (Int64.le_of_lt hearly) (Int64.le_refl _)) hfree
  -- what is reported has transfers and a rate
  have hfound : (w.totalsOf L (w.readable ledger.committed)).find? asset = some totals := hreported
  rw [find?_totalsOf] at hfound
  obtain ⟨hne, hfound⟩ := Option.ite_none_left_eq_some.mp hfound
  obtain ⟨fraction, hrate, hdirectory, hcheck⟩ := rate_of_totals hfound
  refine ⟨fraction, _, _, hdirectory, hearlyRun, hlateRun, ?_⟩
  intro hwholeExact hfirstExact hlateExact
  have htimes : ts.Pairwise fun a b => a.occurredAt ≤ b.occurredAt :=
    (pairwise_readable hordered).filter _
  have hbefore : ∀ t ∈ ts, t.occurredAt < stop := fun t ht =>
    lt_of_mem_readable (w := w) (Commits.mem_ofAsset.mp ht).1
  have hpos := value_pos_of_checkFraction hcheck
  obtain ⟨held, whole, closed, hheld, hwholeClosing, hlateClosing, earlyFee, hnil, hsome, hbound,
    hexact⟩ := fees_of_adjacent (w := w) hwindow hearly hlate (Config.custodyPeriod_pos hconfig)
      hcheck hpos.le htimes hbefore hwholeExact hfirstExact hlateExact
  rw [← hfirstTransfers] at hnil hsome
  -- the fees of the three replays are those reported
  obtain ⟨-, hwholeFee⟩ := feeOf_totalsOf (w := w) hdisabled hrate (fun heq => absurd heq hne)
    fun _ => ⟨whole, hwholeClosing, rfl⟩
  obtain ⟨hfirstNone, hfirstFee⟩ := feeOf_totalsOf (w := first) hdisabled hrate hnil hsome
  obtain ⟨hlateNone, hlateFee⟩ := feeOf_totalsOf (w := second) hdisabled hrate
    (fun heq => absurd heq hne) fun _ => ⟨closed, hlateClosing, rfl⟩
  rw [hfirstTransfers] at hfirstNone
  rw [← hwholeFee, ← hfirstFee, ← hlateFee] at hbound hexact
  exact ⟨held, hheld, hfirstNone, mt hlateNone.mp hne, hbound, hexact⟩

/-- Alice's seven units come at 60, where the windows meet, so her fees add up exactly. -/
theorem fees_of_adjacent_sample_windows :
    let w := fun window => make (Config.default.withSnapshots false) window Sample.account
    let db : Database := .ofTables (Sample.tables [])
    (w ⟨20, 100⟩).resultOn db = .ok Sample.custody ∧
      ∃ early late, (w ⟨20, 60⟩).resultOn db = .ok early ∧ (w ⟨60, 100⟩).resultOn db = .ok late ∧
        Sample.custody.feeOf "usd#bank" = early.feeOf "usd#bank" + late.feeOf "usd#bank" := by
  intro w db
  have hrun : (w ⟨20, 100⟩).resultOn db = .ok Sample.custody := by
    rw [resultOn_eq (Sample.records []) (by decide) (by decide), Sample.committed_ledger]
    decide +kernel
  have hfound : db.tables.findCustodyRate "custody_billing@bank" "usd#bank" =
      .ok (some Sample.fraction) := by decide +kernel
  obtain ⟨fraction, early, late, hrate, hearly, hlate, hfees⟩ :=
    @fees_of_adjacent_windows Sample.ledger db Sample.custody "usd#bank" _ 60
      (Config.default.withSnapshots false) Sample.account 20 100 (Sample.records [])
      Sample.timeOrdered (by decide) (by decide) (by decide) (by decide) (by decide) hrun rfl
  cases hfound.symm.trans hrate
  rw [Sample.committed_ledger] at hfees
  obtain ⟨held, -, -, -, -, hexact⟩ := hfees (by decide +kernel) (fun _ => by decide +kernel)
    (by decide +kernel)
  exact ⟨hrun, early, late, hearly, hlate, hexact (by decide +kernel)⟩

end Walk

end Custodian
