import Custodian.Proofs.Accrual.Stream
import Custodian.Proofs.Dialogue.Contract
import Custodian.Proofs.Keyed

/-!
# What a report relies on, and what it comes to

A `World` is what stays fixed while a report runs: the ledger in commit order, the answer to
every look-up of a rate, and the listings of accounts. Its contract says that the stores
answer accordingly. Snapshots are the exception: any look-up may fail or find nothing, and
any recording may fail, but a snapshot that is found must be sound; in return only sound ones
are recorded, and none beyond the horizon of the world. Of a world without snapshots nothing is
asked about them.

`Walk.outcome` is what the walk over an account comes to in a world. Snapshots do not occur
in it.
-/

namespace Custodian

/-- What stays fixed while a report runs. -/
structure World where
  /-- The ledger in commit order. -/
  transfers : Commits
  /-- The answer to a look-up of the fraction of an asset in a scope. -/
  rate : String → String → Except Error Decimal
  /-- The answer to a request for a page of accounts. -/
  accounts : Option String → PageRequest → Except Error (Listing Account)
  /-- The instant that snapshots reach up to, if there are any. -/
  horizon : Option Int64

namespace World

/-- The rows of a page, and the number of rows in all. -/
def listing (W : World) (account : String) (stop : Int64) (page : PageRequest) :
    Listing Transfer :=
  ⟨page.slice (W.transfers.ofAccount account stop),
    (W.transfers.ofAccount account stop).length⟩

/-- Whether there are snapshots, and an instant lies within the horizon. -/
def Reaches (W : World) (time : Int64) : Prop := ∃ horizon ∈ W.horizon, time ≤ horizon

/-- Pages are asked for within their bounds, snapshots only where there are some, and only
sound ones within the horizon are recorded. -/
def Asked (W : World) : Question → Prop
  | .transfers _ _ page => page.check = .ok ()
  | .snapshot _ _ _ => W.horizon.isSome = true
  | .append snapshot => W.Reaches snapshot.control ∧ snapshot.Sound W.transfers
  | _ => True

/-- Ledger, rates and accounts are answered as they are; a snapshot that is found is a sound
one of the asset asked for. -/
def Allowed (W : World) : (q : Question) → q.Answer → Prop
  | .transfers account stop page => fun answer => answer = .ok (W.listing account stop page)
  | .accounts domain page => fun answer => answer = W.accounts domain page
  | .rate scope asset => fun answer => answer = W.rate scope asset
  | .snapshot account asset time => fun answer =>
    ∀ s, answer = .ok (some s) →
      s.account = account ∧ s.asset = asset ∧ s.control ≤ time ∧ s.Sound W.transfers
  | .append _ => fun _ => True
  | .writesWait => fun _ => True
  | .note _ => fun _ => True

/-- The contract between a report and the stores of a world. -/
def contract (W : World) : Contract := ⟨W.Asked, W.Allowed⟩

/-- A notice may always be left. -/
@[simp] theorem ensures_note {W : World} {post : Unit → Prop} (notice : Notice) :
    Dialogue.Ensures W.contract post (Dialogue.question (.note notice)) ↔ post () := by
  constructor
  · intro h
    exact h.2 () trivial
  · intro h
    exact ⟨trivial, fun _ _ => h⟩

end World

namespace Walk

variable (w : Walk) (W : World)

/-- The transfers that the walk sees. -/
def stream : Commits := W.transfers.ofAccount w.account w.window.stop

/-- The error of a look-up that concerns more than the asset. -/
def rateFailure? (asset : String) : Option Error :=
  match W.rate w.scope asset with
  | .ok _ => none
  | .error e => if e.assetCause?.isSome then none else some e

/-- The totals of one asset at the end of the window, unless its rate or a sum is not to be
had. -/
def custodyOf (asset : String) : Option AssetCustody :=
  match W.rate w.scope asset with
  | .error _ => none
  | .ok fraction =>
    (w.closing fraction ((w.stream W).ofAsset asset)).toOption.map Context.custody

/-- What the walk comes to: the first failure of a rate look-up, in the order of the ledger,
or else the totals of the assets that have some. -/
def outcome : Except Error AccountCustody :=
  match (w.stream W).findSome? fun t => w.rateFailure? W t.asset with
  | some e => .error e
  | none =>
    .ok ⟨w.account, .tabulate (w.custodyOf W) ((w.stream W).map Transfer.asset)⟩

variable {w W} {asset : String} {fraction : Decimal}

theorem rateFailure?_of_ok (h : W.rate w.scope asset = .ok fraction) :
    w.rateFailure? W asset = none := by
  unfold rateFailure?
  rw [h]

theorem custodyOf_of_error {e : Error} (h : W.rate w.scope asset = .error e) :
    w.custodyOf W asset = none := by
  unfold custodyOf
  rw [h]

/-- An asset whose replay fails on the way has no totals. -/
theorem custodyOf_of_failure {e : Error} {done rest : Commits}
    (hrate : W.rate w.scope asset = .ok fraction) (hsplit : done ++ rest = w.stream W)
    (h : w.accrual fraction (done.ofAsset asset) = .error e) : w.custodyOf W asset = none := by
  unfold custodyOf
  rw [hrate]
  show (w.closing fraction _).toOption.map Context.custody = none
  rw [← hsplit, Commits.ofAsset_append, closing, accrual_append, h]
  rfl

/-- At the end of the stream only the last settlement decides. -/
theorem custodyOf_of_accrual {c : Context} (hrate : W.rate w.scope asset = .ok fraction)
    (h : w.accrual fraction ((w.stream W).ofAsset asset) = .ok c) :
    w.custodyOf W asset =
      (c.settle w.window w.window.stop fraction w.config.custodyPeriod).toOption.map
        Context.custody := by
  unfold custodyOf
  rw [hrate]
  show (w.closing fraction _).toOption.map Context.custody = _
  rw [closing, h]
  rfl

/-- The first failing look-up decides. -/
theorem outcome_of_rateFailure {e : Error} {done rest : Commits} {t : Transfer}
    (hsplit : done ++ t :: rest = w.stream W)
    (hdone : ∀ t' ∈ done, w.rateFailure? W t'.asset = none)
    (ht : w.rateFailure? W t.asset = some e) : w.outcome W = .error e := by
  have hfind : (w.stream W).findSome? (fun t => w.rateFailure? W t.asset) = some e := by
    rw [← hsplit, List.findSome?_append, List.findSome?_eq_none_iff.mpr hdone, Option.none_or,
      List.findSome?_cons, ht]
  unfold outcome
  rw [hfind]

/-- Without a failing look-up there are totals. -/
theorem outcome_of_rates (h : ∀ t ∈ w.stream W, w.rateFailure? W t.asset = none) :
    w.outcome W =
      .ok ⟨w.account, .tabulate (w.custodyOf W) ((w.stream W).map Transfer.asset)⟩ := by
  unfold outcome
  rw [List.findSome?_eq_none_iff.mpr h]

end Walk

end Custodian
