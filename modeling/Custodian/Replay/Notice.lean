import Custodian.Error

/-!
# Notices

What a replay reports on the side, without failing: assets left out, and snapshots that
could not be read or written.
-/

namespace Custodian

/-- How serious a notice is. -/
inductive NoticeLevel where
  | warning
  | failure
  deriving DecidableEq, Repr

/-- Something worth a line in the log. -/
inductive Notice where
  | rateMissing (asset scope : String)
  | assetOmitted (asset account : String) (cause : CustodyError)
  | snapshotLookupFailed (account asset : String) (cause : Error)
  | snapshotWriteFailed (account asset : String) (control : Int64) (cause : Error)
  deriving DecidableEq, Repr

namespace Notice

/-- The level of a notice. Only a snapshot that was not stored counts as a failure. -/
def level : Notice → NoticeLevel
  | rateMissing _ _ => .warning
  | assetOmitted _ _ _ => .warning
  | snapshotLookupFailed _ _ _ => .warning
  | snapshotWriteFailed _ _ _ _ => .failure

/-- The wording of a notice. -/
def text : Notice → String
  | rateMissing asset scope =>
    "No custody rate for asset " ++ asset ++ " in billing scope " ++ scope
  | assetOmitted asset account cause =>
    "Omitting asset " ++ asset ++ " for account " ++ account ++ ": " ++ cause.message
  | snapshotLookupFailed account asset cause =>
    "Snapshot lookup failed for " ++ account ++ "/" ++ asset ++
      ", replaying from genesis: " ++ cause.message
  | snapshotWriteFailed account asset control cause =>
    (CustodyError.snapshotWriteFailure cause.message).message ++
      s!" ({account}/{asset} at {control})"

/-- A log line: the level and the wording. -/
def line (n : Notice) : String :=
  (match n.level with
    | .warning => "WARN "
    | .failure => "ERROR ") ++ n.text

end Notice

end Custodian
