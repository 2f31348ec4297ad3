import Custodian.Keyed
import Custodian.Snapshot.Policy

/-!
# Account books

The replay of one account holds one state for each asset met so far, and the assets that
are left out for the rest of the run.
-/

namespace Custodian

/-- The replays of all assets of one account. -/
structure AccountBook where
  account : String
  assets : Keyed AssetState
  skipped : Keyed Unit
  deriving DecidableEq, Repr

namespace AccountBook

/-- No asset met yet. -/
def empty (account : String) : AccountBook := ⟨account, [], []⟩

/-- The state of an asset. -/
def find? (b : AccountBook) (asset : String) : Option AssetState := b.assets.find? asset

/-- Puts the state of an asset. -/
def insert (b : AccountBook) (asset : String) (state : AssetState) : AccountBook :=
  { b with assets := b.assets.insert asset state }

/-- Changes the state of an asset, if it has one. -/
def modify (b : AccountBook) (asset : String) (f : AssetState → AssetState) : AccountBook :=
  { b with assets := b.assets.modify asset f }

/-- Leaves an asset out from here on. -/
def skip (b : AccountBook) (asset : String) : AccountBook :=
  { b with assets := b.assets.erase asset, skipped := b.skipped.insert asset () }

/-- Whether an asset is left out. -/
def isSkipped (b : AccountBook) (asset : String) : Bool := (b.skipped.find? asset).isSome

/-- The assets left out, in order. -/
def skippedAssets (b : AccountBook) : List String := b.skipped.map Prod.fst

end AccountBook

end Custodian
