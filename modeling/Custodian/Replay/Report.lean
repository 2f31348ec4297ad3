import Custodian.Replay.SideBySide
import Custodian.Replay.Walk

/-!
# Reports

A report covers one account, a page of the accounts of a domain, or a page of all accounts.
The window and the page are checked before any store is asked. Accounts are walked in the
order of the page; the first failure is the report's. Where writes wait in a queue, several
accounts are walked side by side, up to the number configured.
-/

namespace Custodian.Report

/-- The totals of one account by its full id. -/
def account (config : Config) (id : String) (start stop : Int64) :
    Attempt (Keyed AssetCustody) := do
  let window ← Attempt.ofExcept (Window.make start stop)
  let account ← Attempt.ofExcept (Account.ofId id)
  return (← (Walk.make config window account).run).assets

/-- The totals of a page of accounts: those of a domain, or all. The answer keeps the number
of accounts in scope. -/
def accounts (config : Config) (domain : Option String) (start stop : Int64)
    (page : PageRequest) : Attempt (Listing AccountCustody) := do
  let window ← Attempt.ofExcept (Window.make start stop)
  Attempt.ofExcept page.check
  match ← Attempt.question (.accounts domain page) with
  | .error e => throw (ledgerError e)
  | .ok listing =>
    let width := if ← Attempt.question .writesWait then config.maxConcurrentAccounts else 1
    let totals ← Attempt.sideBySide width <|
      listing.items.map fun a => (Walk.make config window a).run
    return ⟨totals, listing.total⟩

end Custodian.Report
