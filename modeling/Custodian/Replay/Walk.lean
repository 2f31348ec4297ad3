import Custodian.Accrual.Settlement
import Custodian.Replay.AccountBook
import Custodian.Replay.Dialogue

/-!
# The walk over one account

An account's transfers are read page by page and replayed in commit order. The first
transfer of an asset opens its replay, at a snapshot where one may be used. Each transfer
settles its asset up to its own instant and then moves the balance. At the end every asset
is settled up to the end of the window. Whenever a settlement moves a control point a
snapshot may be due; one that cannot be written is noted and otherwise ignored. An error
that concerns one asset takes that asset out; any other error ends the walk.
-/

namespace Custodian

/-- The totals of one account, by asset. -/
structure AccountCustody where
  account : String
  assets : Keyed AssetCustody
  deriving DecidableEq, Repr

/-- What stays fixed during the walk over one account. -/
structure Walk where
  config : Config
  window : Window
  /-- The id of the account. -/
  account : String
  /-- The billing scope of its domain. -/
  scope : String
  deriving DecidableEq, Repr

/-- The cause of an error that concerns one asset only. -/
def Error.assetCause? : Error → Option CustodyError
  | .custody e => if e.assetScoped then some e else none
  | _ => none

/-- A database error while the ledger is read makes the whole report one to try again. -/
def ledgerError : Error → Error
  | .database e => .custody (.ledgerUnavailable e.message)
  | e => e

namespace Walk

/-- The walk over an account of the ledger. -/
def make (config : Config) (window : Window) (account : Account) : Walk :=
  ⟨config, window, account.id, config.scopeOf account.domain⟩

/-! ## Snapshots -/

/-- The policy in force. -/
def policy (w : Walk) : SnapshotPolicy := .ofConfig w.config

/-- Writes a snapshot of a settled context if one is due. Gives its control point if it was
stored. -/
def checkpoint (w : Walk) (asset : String) (settled : Context) (last : Option Int64) :
    Dialogue (Option Int64) := do
  if w.policy.shouldWrite last settled.control then
    match ← Dialogue.question (.append (settled.snapshot w.account asset)) with
    | .ok () => return some settled.control
    | .error e =>
      Dialogue.question (.note (.snapshotWriteFailed w.account asset settled.control e))
      return none
  else return none

/-! ## One transfer -/

/-- Leaves an asset out and notes why. -/
def omitAsset (w : Walk) (book : AccountBook) (asset : String) (cause : CustodyError) :
    Dialogue AccountBook := do
  Dialogue.question (.note (.assetOmitted asset w.account cause))
  return book.skip asset

/-- Goes on without the asset if the error concerns only that asset, and fails otherwise. -/
def omitOrFail (w : Walk) (book : AccountBook) (asset : String) (e : Error) :
    Attempt AccountBook :=
  match e.assetCause? with
  | some cause => ExceptT.lift (w.omitAsset book asset cause)
  | none => throw e

/-- Settles a state up to an instant and then moves its balance. Gives the contexts after
each of the two. -/
def settleAndApply (w : Walk) (state : AssetState) (occurredAt : Int64) (delta : Decimal) :
    Except Error (Context × Context) := do
  let settled ← state.context.settle w.window occurredAt state.fraction w.config.custodyPeriod
  let applied ← settled.applyDelta delta
  return (settled, applied)

end Walk

/-- The state in which the replay of an asset starts. A snapshot that cannot be read is
noted, and the replay starts from the first transfer. -/
def SnapshotPolicy.seed (p : SnapshotPolicy) (account asset : String) (window : Window)
    (fraction : Decimal) : Dialogue AssetState := do
  if p.enabled then
    match ← Dialogue.question (.snapshot account asset window.start) with
    | .ok (some snapshot) => return .seeded snapshot window fraction
    | .ok none => return .genesis window fraction
    | .error e =>
      Dialogue.question (.note (.snapshotLookupFailed account asset e))
      return .genesis window fraction
  else return .genesis window fraction

namespace Walk

/-- Opens the replay of an asset that is neither open nor left out. -/
def openAsset (w : Walk) (book : AccountBook) (asset : String) : Attempt AccountBook := do
  match ← Attempt.question (.rate w.scope asset) with
  | .ok fraction =>
    let state ← ExceptT.lift (w.policy.seed w.account asset w.window fraction)
    return book.insert asset state
  | .error e => w.omitOrFail book asset e

/-- Replays a transfer of an asset whose replay is open. -/
def replayOpen (w : Walk) (book : AccountBook) (state : AssetState) (t : Transfer) :
    Attempt AccountBook :=
  if state.isFolded t.occurredAt then return book
  else
    match w.settleAndApply state t.occurredAt (t.deltaFor w.account) with
    | .error e => w.omitOrFail book t.asset e
    | .ok (settled, applied) => do
      let book := book.modify t.asset fun s => { s with context := applied }
      if state.context.control < settled.control then
        match ← ExceptT.lift (w.checkpoint t.asset settled state.lastSnapshotAt) with
        | some control =>
          return book.modify t.asset fun s => { s with lastSnapshotAt := some control }
        | none => return book
      else return book

/-- Replays one transfer. -/
def replay (w : Walk) (book : AccountBook) (t : Transfer) : Attempt AccountBook := do
  if book.isSkipped t.asset then return book
  else
    let book ←
      match book.find? t.asset with
      | some _ => pure book
      | none => w.openAsset book t.asset
    match book.find? t.asset with
    | some state => w.replayOpen book state t
    | none => return book

/-! ## All transfers -/

/-- Replays the transfers of a page that count for the window. -/
def replayAll (w : Walk) (book : AccountBook) (transfers : List Transfer) :
    Attempt AccountBook :=
  (transfers.filter fun t => t.countsBefore w.window.stop).foldlM w.replay book

/-- Replays page `n` and those after it. -/
def replayPages (w : Walk) (n : Nat) (book : AccountBook) : Attempt AccountBook := do
  let request : PageRequest := ⟨n, w.config.transferPageSize⟩
  let answer ← Attempt.question (.transfers w.account w.window.stop request)
  match answer with
  | .error e => throw (ledgerError e)
  | .ok listing =>
    let book ← w.replayAll book listing.items
    if h : (Page.ofListing request listing).hasNext = true then w.replayPages (n + 1) book
    else return book
  termination_by maxPage - n
  decreasing_by
    have : n < maxPage := Page.number_lt_maxPage h
    omega

/-! ## The end of the window -/

/-- Settles one asset up to the end of the window, and leaves it out if that fails for
reasons of its own. -/
def finishAsset (w : Walk) (asset : String) (state : AssetState) :
    Attempt (Option AssetCustody) :=
  match
    state.context.settle w.window w.window.stop state.fraction w.config.custodyPeriod with
  | .error e =>
    match e.assetCause? with
    | some cause => do
      Attempt.note (.assetOmitted asset w.account cause)
      return none
    | none => throw e
  | .ok settled => do
    let _ ← ExceptT.lift (w.checkpoint asset settled state.lastSnapshotAt)
    return some settled.custody

/-- Settles every asset up to the end of the window, in the order of the assets. -/
def finish (w : Walk) : Keyed AssetState → Attempt (Keyed AssetCustody)
  | [] => return []
  | (asset, state) :: rest => do
    let custody ← w.finishAsset asset state
    let others ← w.finish rest
    match custody with
    | some c => return (asset, c) :: others
    | none => return others

/-- The whole walk. -/
def run (w : Walk) : Attempt AccountCustody := do
  let book ← w.replayPages 1 (.empty w.account)
  let assets ← w.finish book.assets
  return ⟨w.account, assets⟩

end Walk

end Custodian
