import Custodian.Proofs.Replay.Footprint

/-!
# What a walk comes to when look-ups have fixed answers

`Lookups` says what every look-up gives while a report runs: pages of the ledger, pages of
accounts, rates, and the snapshot that a replay of the window may start from. Anything may be
an error, and the ledger may be in any order. Only recordings of snapshots are left open: each
of them may succeed or fail.

`Walk.result` is what a walk comes to then. It reads the pages (`Walk.reading`), replays each
asset on its own from where its look-up lets it start (`Walk.progress`), and reports the assets
whose replay gets to the end of the window (`Walk.totals`). That every run of the walk ends in
this result is proved in `Proofs/Replay/Result`.
-/

namespace Custodian

/-- What look-ups give while a report runs. -/
structure Lookups where
  transfers : String → Int64 → PageRequest → Except Error (Listing Transfer)
  accounts : Option String → PageRequest → Except Error (Listing Account)
  rate : String → String → Except Error Decimal
  snapshot : String → String → Int64 → Except Error (Option Snapshot)

namespace Lookups

/-- The answers that a question may be given: that of the look-up, and any to a recording. -/
def Allowed (L : Lookups) : (q : Question) → q.Answer → Prop
  | .transfers account stop page => fun answer => answer = L.transfers account stop page
  | .accounts domain page => fun answer => answer = L.accounts domain page
  | .rate scope asset => fun answer => answer = L.rate scope asset
  | .snapshot account asset time => fun answer => answer = L.snapshot account asset time
  | .append _ => fun _ => True
  | .writesWait => fun _ => True
  | .note _ => fun _ => True

/-- Look-ups give what they give. Anything may be asked. -/
def answers (L : Lookups) : Contract := ⟨fun _ => True, L.Allowed⟩

/-- Snapshots are looked up at an instant only, and recorded only behind it. -/
def Asked (start : Int64) : Question → Prop
  | .snapshot _ _ time => time = start
  | .append s => start < s.control
  | _ => True

/-- Look-ups give what they give, in a report that recordings of its own cannot influence. -/
def contract (L : Lookups) (start : Int64) : Contract := ⟨Asked start, L.Allowed⟩

end Lookups

/-- Questions about one asset are of this kind. -/
theorem Walk.Concerns.asked {w : Walk} {asset : String} {q : Question} (h : w.Concerns asset q) :
    Lookups.Asked w.window.start q := by
  cases q with
  | snapshot account asset time => exact h.2.2
  | append s => exact h.2.2
  | _ => exact trivial

/-! ## The replay of one asset -/

/-- The state in which a replay starts, by what the look-up of a snapshot gave. -/
def SnapshotPolicy.stateFrom (p : SnapshotPolicy) (found : Except Error (Option Snapshot))
    (window : Window) (fraction : Decimal) : AssetState :=
  if p.enabled then
    match found with
    | .ok (some snapshot) => .seeded snapshot window fraction
    | .ok none => .genesis window fraction
    | .error _ => .genesis window fraction
  else .genesis window fraction

/-- The transfers that are not in the starting balance. -/
def AssetState.unfolded (st : AssetState) (ts : Commits) : Commits :=
  ts.filter fun t => !st.isFolded t.occurredAt

namespace Walk

variable (w : Walk) (L : Lookups)

/-- The state in which the replay of an asset starts, unless it has no usable rate. -/
def opening (asset : String) : Except Error AssetState :=
  (L.rate w.scope asset).map
    (w.policy.stateFrom (L.snapshot w.account asset w.window.start) w.window)

/-- The state of an asset after several of its transfers, unless one of the steps fails. -/
def progress (asset : String) (ts : Commits) : Except Error AssetState := do
  let st ← w.opening L asset
  let c ← w.advance st.fraction st.context (st.unfolded ts)
  return { st with context := c }

/-- The totals of an asset with the given transfers, unless its rate is not usable, or a step or
the last settlement fails. -/
def totals (asset : String) (ts : Commits) : Option AssetCustody :=
  (w.progress L asset ts >>= fun st =>
    st.context.settle w.window w.window.stop st.fraction
      w.config.custodyPeriod).toOption.map Context.custody

/-! ## The whole walk -/

/-- The error of a look-up of a rate that concerns more than the asset. -/
def blocked? (asset : String) : Option Error :=
  match L.rate w.scope asset with
  | .ok _ => none
  | .error e => if e.assetCause?.isSome then none else some e

/-- The transfers on page `n` and the pages after it, as far as they can be read, and the error
that ends the reading if one does. -/
def reading (n : Nat) : Commits × Option Error :=
  let request : PageRequest := ⟨n, w.config.transferPageSize⟩
  match L.transfers w.account w.window.stop request with
  | .error e => ([], some (ledgerError e))
  | .ok listing =>
    let ts := listing.items.filter fun t => t.countsBefore w.window.stop
    if _hnext : (Page.ofListing request listing).hasNext = true then
      let rest := reading (n + 1)
      (ts ++ rest.1, rest.2)
    else (ts, none)
  termination_by maxPage - n
  decreasing_by
    have : n < maxPage := Page.number_lt_maxPage _hnext
    omega

/-- The first error that ends the reading of some transfers: of a rate, or else of a page. -/
def failure? (r : Commits × Option Error) : Option Error :=
  (r.1.findSome? fun t => w.blocked? L t.asset).or r.2

/-- What the walk comes to. -/
def result : Except Error AccountCustody :=
  let r := w.reading L 1
  match w.failure? L r with
  | some e => .error e
  | none =>
    .ok ⟨w.account,
      .tabulate (fun asset => w.totals L asset (r.1.ofAsset asset)) (r.1.map Transfer.asset)⟩

variable {w L} {asset : String} {fraction : Decimal} {st : AssetState} {t : Transfer}
  {ts ts' : Commits} {e : Error}

theorem opening_of_ok (h : L.rate w.scope asset = .ok fraction) :
    w.opening L asset =
      .ok (w.policy.stateFrom (L.snapshot w.account asset w.window.start) w.window fraction) := by
  unfold opening
  rw [h]
  rfl

theorem progress_of_error (h : L.rate w.scope asset = .error e) :
    w.progress L asset ts = .error e := by
  unfold progress opening
  rw [h]
  rfl

/-- Only an asset with a usable rate makes progress. -/
theorem blocked?_of_progress (h : w.progress L asset ts = .ok st) :
    w.blocked? L asset = none := by
  rcases hrate : L.rate w.scope asset with e | fraction
  · rw [progress_of_error hrate] at h
    cases h
  · unfold blocked?
    rw [hrate]

/-- Before its first transfer an asset stands where it opens. -/
theorem progress_nil : w.progress L asset [] = w.opening L asset := by
  unfold progress
  rcases w.opening L asset with e | st
  · rfl
  · rfl

/-- One more transfer is passed over or replayed. -/
theorem progress_concat :
    w.progress L asset (ts ++ [t]) =
      w.progress L asset ts >>= fun st =>
        if st.isFolded t.occurredAt then .ok st
        else (w.step st.fraction st.context t).map fun c => { st with context := c } := by
  unfold progress
  rcases w.opening L asset with e | st
  · rfl
  show (w.advance st.fraction st.context (st.unfolded (ts ++ [t])) >>= fun c =>
      pure { st with context := c }) =
    ((w.advance st.fraction st.context (st.unfolded ts) >>= fun c =>
      pure { st with context := c }) >>= fun st =>
        if st.isFolded t.occurredAt then .ok st
        else (w.step st.fraction st.context t).map fun c => { st with context := c })
  have hlast : st.unfolded (ts ++ [t]) =
      st.unfolded ts ++ if st.isFolded t.occurredAt then [] else [t] := by
    unfold AssetState.unfolded
    rw [List.filter_append]
    cases h : st.isFolded t.occurredAt
    · simp [h]
    · simp [h]
  rw [hlast, advance_append]
  rcases w.advance st.fraction st.context (st.unfolded ts) with e | c
  · rfl
  show (w.advance st.fraction c (if st.isFolded t.occurredAt then [] else [t]) >>= fun c =>
      pure { st with context := c }) =
    if st.isFolded t.occurredAt then .ok { st with context := c }
    else (w.step st.fraction c t).map fun c => { st with context := c }
  cases st.isFolded t.occurredAt
  · rw [if_neg Bool.false_ne_true, if_neg Bool.false_ne_true, advance_cons]
    rcases w.step st.fraction c t with e | c'
    · rfl
    · rfl
  · rfl

/-- A replay that has failed stays failed. -/
theorem progress_concat_of_error (h : w.progress L asset ts = .error e) :
    w.progress L asset (ts ++ [t]) = .error e := by
  rw [progress_concat, h]
  rfl

/-- There are no totals for a replay that has failed. -/
theorem totals_of_error (h : w.progress L asset ts = .error e) : w.totals L asset ts = none := by
  unfold totals
  rw [h]
  rfl

/-- At the end of the transfers only the last settlement decides. -/
theorem totals_of_ok (h : w.progress L asset ts = .ok st) :
    w.totals L asset ts =
      (st.context.settle w.window w.window.stop st.fraction
        w.config.custodyPeriod).toOption.map Context.custody := by
  unfold totals
  rw [h]
  rfl

/-- The first error that ends the reading is what the walk comes to. -/
theorem result_of_failure (h : w.failure? L (w.reading L 1) = some e) :
    w.result L = .error e := by
  unfold result
  simp only [h]

/-- Without such an error there are totals. -/
theorem result_of_reading (h : w.failure? L (w.reading L 1) = none) :
    w.result L =
      .ok ⟨w.account,
        .tabulate (fun asset => w.totals L asset ((w.reading L 1).1.ofAsset asset))
          ((w.reading L 1).1.map Transfer.asset)⟩ := by
  unfold result
  simp only [h]

/-- Where all pages can be read only rates can fail. -/
theorem failure?_eq_none_iff (hreading : w.reading L 1 = (ts, none)) :
    w.failure? L (w.reading L 1) = none ↔ ∀ t ∈ ts, w.blocked? L t.asset = none := by
  rw [hreading, failure?, Option.or_none, List.findSome?_eq_none_iff]

/-- Then there are totals if none of them ends the reading. -/
theorem exists_result_iff (hreading : w.reading L 1 = (ts, none)) :
    (∃ custody, w.result L = .ok custody) ↔ ∀ t ∈ ts, w.blocked? L t.asset = none := by
  rw [← failure?_eq_none_iff hreading]
  constructor
  · rintro ⟨custody, hresult⟩
    rcases h : w.failure? L (w.reading L 1) with _ | e
    · rfl
    · cases (result_of_failure h).symm.trans hresult
  · exact fun h => ⟨_, result_of_reading h⟩

theorem failure?_append {last : Option Error} :
    w.failure? L (ts ++ ts', last) =
      (ts.findSome? fun t => w.blocked? L t.asset).or (w.failure? L (ts', last)) := by
  unfold failure?
  rw [List.findSome?_append, Option.or_assoc]

end Walk

end Custodian
