import Custodian.Billing.Rate
import Custodian.Config.Basic
import Custodian.Decimal.Double
import Custodian.Failure
import Custodian.Json.Basic
import Custodian.Ledger.Account
import Custodian.Ledger.Page
import Custodian.Ledger.Transfer
import Custodian.Replay.Walk
import Custodian.Time.Stamp

/-!
# Records as JSON

Records are written as objects with their fields in a fixed order. Decimals become doubles.
-/

namespace Custodian.Wire

/-- A decimal, as the double nearest to it. -/
def ofDecimal (d : Decimal) : Json := .real d.toDouble

/-- An instant or a length of time. -/
def ofMillis (t : Int64) : Json := .int t.toInt

/-- A count. -/
def ofCount (n : Nat) : Json := .int n

/-- A configuration. -/
def ofConfig (c : Config) : Json :=
  .obj [("custodyPeriodMs", ofMillis c.custodyPeriod),
    ("custodyBillingAccountTemplate", .str c.billingTemplate),
    ("snapshotStalenessMultiplier", ofMillis c.stalenessMultiplier),
    ("transferPageSize", ofCount c.transferPageSize),
    ("accountPageSize", ofCount c.accountPageSize),
    ("maxConcurrentAccounts", ofCount c.maxConcurrentAccounts),
    ("snapshotsEnabled", .bool c.snapshotsEnabled)]

/-- A window. -/
def ofWindow (w : Window) : Json := .obj [("from", ofMillis w.start), ("to", ofMillis w.stop)]

/-- A page request. -/
def ofPageRequest (r : PageRequest) : Json :=
  .obj [("pageNumber", ofCount r.number), ("pageSize", ofCount r.size)]

/-- An account. -/
def ofAccount (a : Account) : Json :=
  .obj [("accountName", .str a.name), ("domainId", .str a.domain)]

/-- A kind of fee. -/
def ofBillingKind (kind : BillingKind) : Json := .str kind.code

/-- A transfer. -/
def ofTransfer (t : Transfer) : Json :=
  .obj [("srcAccountId", .str t.source), ("destAccountId", .str t.destination),
    ("assetId", .str t.asset), ("amount", ofDecimal t.amount),
    ("occurredAt", ofMillis t.occurredAt), ("rejected", .bool t.rejected)]

/-- A page of items. -/
def ofPage {α : Type} (ofItem : α → Json) (p : Page α) : Json :=
  .obj [("items", .arr (p.items.map ofItem)), ("pageNumber", ofCount p.number),
    ("pageSize", ofCount p.size), ("totalElements", ofCount p.total),
    ("totalPages", ofCount p.pages)]

/-- A billing rate. -/
def ofBillingRate (r : BillingRate) : Json :=
  .obj [("scopeAccountId", .str r.scope), ("assetId", .str r.asset),
    ("billingType", ofBillingKind r.kind), ("feeFraction", ofDecimal r.fraction),
    ("created", ofMillis r.created), ("updated", ofMillis r.updated)]

/-- An accrual context. -/
def ofContext (c : Context) : Json :=
  .obj [("cumulativeFee", ofDecimal c.fee), ("cumulativeAuc", ofDecimal c.auc),
    ("controlTimestamp", ofMillis c.control), ("runningBalance", ofDecimal c.balance)]

/-- A snapshot with its id and the time it was taken. -/
def ofSnapshot (id : String) (s : Snapshot) (created : Time.Civil) : Json :=
  .obj [("id", .str id), ("accountId", .str s.account), ("assetId", .str s.asset),
    ("cumulativeFee", ofDecimal s.fee), ("controlTimestamp", ofMillis s.control),
    ("runningBalance", ofDecimal s.balance), ("createdAt", .str created.toText)]

/-- The totals of an asset. -/
def ofAssetCustody (c : AssetCustody) : Json :=
  .obj [("fee", ofDecimal c.fee), ("assetsUnderCustody", ofDecimal c.assetsUnderCustody)]

/-- The totals of an account. -/
def ofAccountCustody (c : AccountCustody) : Json :=
  .obj [("accountId", .str c.account),
    ("assetCustody", .obj (c.assets.map fun (asset, custody) => (asset, ofAssetCustody custody)))]

/-- What the caller is told about a failure. -/
def ofEnvelope (e : Envelope) : Json :=
  .obj [("code", .str e.code), ("message", .str e.message), ("retryable", .bool e.retryable)]

end Custodian.Wire
