import Custodian.Billing.Rate
import Custodian.Config.Basic
import Custodian.Decimal.Reader
import Custodian.Double.Text
import Custodian.Json.Basic
import Custodian.Ledger.Account
import Custodian.Ledger.Page
import Custodian.Ledger.Transfer
import Custodian.Replay.Walk
import Custodian.Time.Stamp

/-!
# Records from JSON

A record is given as an object or as the list of its fields in order. Fields that are not
the record's are ignored in an object; a list has exactly as many items as the record has
fields. Only the configuration has optional fields: those an object leaves out, or that are
missing at the end of a list, keep their defaults.
-/

namespace Custodian.Wire

-- Powers are those of the core library, whatever else is in scope; for that a numeral as an
-- exponent has its type.
attribute [local instance(1100)] instPowNat

/-! ## Scalars -/

/-- A decimal: an integer exactly, a double by its plain text, or a text. -/
def decimal? : Json → Option Decimal
  | .int n => Decimal.make? (decide (n < 0)) n.natAbs 0
  | .real x => (Decimal.ofText (Double.plainText x)).toOption
  | .str s => (Decimal.ofText s).toOption
  | _ => none

/-- A signed integer of 64 bits. -/
def int64? (j : Json) : Option Int64 :=
  (j.int? (-2 ^ (63 : Nat)) (2 ^ (63 : Nat) - 1)).map Int64.ofInt

/-- An unsigned integer of 32 bits. -/
def word32? (j : Json) : Option Nat := (j.int? 0 (2 ^ (32 : Nat) - 1)).map Int.toNat

/-- An unsigned integer of 64 bits. -/
def word64? (j : Json) : Option Nat := (j.int? 0 (2 ^ (64 : Nat) - 1)).map Int.toNat

/-- A time without a zone. -/
def civil? (j : Json) : Option Time.Civil := j.str?.bind Time.Civil.ofText?

/-! ## Fields -/

/-- The fields of a record of which none may be missing. -/
def required (names : List String) : Json → Option (List Json)
  | .obj fields => names.mapM fun name => (Json.obj fields).field? name
  | .arr items => if items.length = names.length then some items else none
  | _ => none

/-- The fields of a record of which any may be missing. -/
def optional (names : List String) : Json → Option (List (Option Json))
  | .obj fields => some (names.map fun name => (Json.obj fields).field? name)
  | .arr items =>
    if items.length ≤ names.length then
      some (items.map some ++ List.replicate (names.length - items.length) none)
    else none
  | _ => none

/-- The value of an optional field, which must be a proper one where it is given. -/
def orDefault {α : Type} (default : α) (read : Json → Option α) : Option Json → Option α
  | none => some default
  | some j => read j

/-! ## Records -/

/-- A configuration. -/
def config? (j : Json) : Option Config :=
  match optional ["custodyPeriodMs", "custodyBillingAccountTemplate",
      "snapshotStalenessMultiplier", "transferPageSize", "accountPageSize",
      "maxConcurrentAccounts", "snapshotsEnabled"] j with
  | some [period, template, staleness, transfers, accounts, concurrent, snapshots] => do
    let d := Config.default
    return {
      custodyPeriod := ← orDefault d.custodyPeriod int64? period
      billingTemplate := ← orDefault d.billingTemplate Json.str? template
      stalenessMultiplier := ← orDefault d.stalenessMultiplier int64? staleness
      transferPageSize := ← orDefault d.transferPageSize word32? transfers
      accountPageSize := ← orDefault d.accountPageSize word32? accounts
      maxConcurrentAccounts := ← orDefault d.maxConcurrentAccounts word64? concurrent
      snapshotsEnabled := ← orDefault d.snapshotsEnabled Json.bool? snapshots }
  | _ => none

/-- A window, which need not be a proper one. -/
def window? (j : Json) : Option Window :=
  match required ["from", "to"] j with
  | some [start, stop] => do return ⟨← int64? start, ← int64? stop⟩
  | _ => none

/-- A page request, which need not be a proper one. -/
def pageRequest? (j : Json) : Option PageRequest :=
  match required ["pageNumber", "pageSize"] j with
  | some [number, size] => do return ⟨← word32? number, ← word32? size⟩
  | _ => none

/-- An account. -/
def account? (j : Json) : Option Account :=
  match required ["accountName", "domainId"] j with
  | some [name, domain] => do return ⟨← name.str?, ← domain.str?⟩
  | _ => none

/-- A kind of fee: its code, or an object with that code and nothing in it. -/
def billingKind? : Json → Option BillingKind
  | .str code => BillingKind.ofCode? code
  | .obj [(code, .null)] => BillingKind.ofCode? code
  | _ => none

/-- A transfer. -/
def transfer? (j : Json) : Option Transfer :=
  match required ["srcAccountId", "destAccountId", "assetId", "amount", "occurredAt",
      "rejected"] j with
  | some [source, destination, asset, amount, occurredAt, rejected] => do
    return ⟨← source.str?, ← destination.str?, ← asset.str?, ← decimal? amount,
      ← int64? occurredAt, ← rejected.bool?⟩
  | _ => none

/-- A page of items. -/
def page? {α : Type} (item? : Json → Option α) (j : Json) : Option (Page α) :=
  match required ["items", "pageNumber", "pageSize", "totalElements", "totalPages"] j with
  | some [items, number, size, total, pages] => do
    return ⟨← (← items.arr?).mapM item?, ← word32? number, ← word32? size, ← word64? total,
      ← word32? pages⟩
  | _ => none

/-- A billing rate. -/
def billingRate? (j : Json) : Option BillingRate :=
  match required ["scopeAccountId", "assetId", "billingType", "feeFraction", "created",
      "updated"] j with
  | some [scope, asset, kind, fraction, created, updated] => do
    return ⟨← scope.str?, ← asset.str?, ← billingKind? kind, ← decimal? fraction,
      ← int64? created, ← int64? updated⟩
  | _ => none

/-- An accrual context. -/
def context? (j : Json) : Option Context :=
  match required ["cumulativeFee", "cumulativeAuc", "controlTimestamp", "runningBalance"] j with
  | some [fee, auc, control, balance] => do
    return ⟨← decimal? fee, ← decimal? auc, ← int64? control, ← decimal? balance⟩
  | _ => none

/-- A snapshot with its id and the time it was taken. -/
def snapshot? (j : Json) : Option (String × Snapshot × Time.Civil) :=
  match required ["id", "accountId", "assetId", "cumulativeFee", "controlTimestamp",
      "runningBalance", "createdAt"] j with
  | some [id, account, asset, fee, control, balance, created] => do
    return (← id.str?, ⟨← account.str?, ← asset.str?, ← decimal? fee, ← int64? control,
      ← decimal? balance⟩, ← civil? created)
  | _ => none

/-- The totals of an asset. -/
def assetCustody? (j : Json) : Option AssetCustody :=
  match required ["fee", "assetsUnderCustody"] j with
  | some [fee, auc] => do return ⟨← decimal? fee, ← decimal? auc⟩
  | _ => none

/-- The totals of an account. -/
def accountCustody? (j : Json) : Option AccountCustody :=
  match required ["accountId", "assetCustody"] j with
  | some [account, assets] => do
    let entries ← (← assets.obj?).mapM fun (asset, j) => do return (asset, ← assetCustody? j)
    return ⟨← account.str?, Keyed.ofList entries⟩
  | _ => none

end Custodian.Wire
