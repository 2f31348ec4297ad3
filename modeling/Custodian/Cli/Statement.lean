import Custodian.Wire.Encode

/-!
# Custody statements

What a successful command prints: the totals of every account asked for, the number of
accounts in scope and the number of pages they fill.
-/

namespace Custodian

/-- The result of a command. -/
structure Statement where
  accounts : List AccountCustody
  total : Nat
  pages : Nat
  deriving DecidableEq, Repr

namespace Statement

/-- The statement of one account. -/
def ofAccount (account : String) (assets : Keyed AssetCustody) : Statement :=
  ⟨[⟨account, assets⟩], 1, 1⟩

/-- The statement of successive pages. The last page tells how many accounts and pages there
are. -/
def ofPages (pages : List (Page AccountCustody)) : Statement where
  accounts := pages.flatMap Page.items
  total := (pages.getLast?.map Page.total).getD 0
  pages := (pages.getLast?.map Page.pages).getD 0

/-- The JSON form. -/
def toJson (s : Statement) : Json :=
  .obj [("accounts", .arr (s.accounts.map Wire.ofAccountCustody)),
    ("total", Wire.ofCount s.total), ("pages", Wire.ofCount s.pages)]

end Statement

end Custodian
