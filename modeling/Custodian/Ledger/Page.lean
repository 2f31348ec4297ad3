import Custodian.Error

/-!
# Pages

Long listings are read page by page, pages counting from one. A store answers a request
with the rows of the page and the number of rows there are in all; the page then knows how
many pages there are.
-/

namespace Custodian

-- Powers are those of the core library, whatever else is in scope.
attribute [local instance(1100)] instPowNat

/-- The largest page number that 32 bits hold. -/
def maxPage : Nat := 4294967295

/-- A request for one page. -/
structure PageRequest where
  number : Nat
  size : Nat
  deriving DecidableEq, Repr

namespace PageRequest

/-- Refuses page 0 and pages without rows. -/
def check (r : PageRequest) : Except Error Unit :=
  if r.number = 0 then .error (.invalidInput "page numbers start at 1")
  else if r.size = 0 then .error (.invalidInput "page size must be positive")
  else .ok ()

/-- The number of rows before the page. It is multiplied in 64 bits with a sign, so a request has
a meaning only if it is `InRange`. -/
def offset (r : PageRequest) : Nat := (r.number - 1) * r.size

/-- The number of rows before the page fits 64 bits with a sign. -/
def InRange (r : PageRequest) : Prop := r.offset < 2 ^ (63 : Nat)

instance (r : PageRequest) : Decidable r.InRange :=
  inferInstanceAs (Decidable (r.offset < 2 ^ (63 : Nat)))

/-- The rows of the page among all rows. -/
def slice {α : Type} (r : PageRequest) (rows : List α) : List α := (rows.drop r.offset).take r.size

end PageRequest

/-- A store's answer to a request for a page: its rows, and the number of rows in all. -/
structure Listing (α : Type) where
  items : List α
  total : Nat
  deriving DecidableEq, Repr

/-- One page, and what is needed to walk the rest. -/
structure Page (α : Type) where
  items : List α
  number : Nat
  size : Nat
  total : Nat
  pages : Nat
  deriving DecidableEq, Repr

namespace Page

/-- The number of pages that `total` rows fill. -/
def countPages (size total : Nat) : Nat :=
  let size := max size 1
  min maxPage ((total + size - 1) / size)

/-- The page that answers a request. -/
def ofListing {α : Type} (r : PageRequest) (listing : Listing α) : Page α :=
  ⟨listing.items, r.number, r.size, listing.total, countPages r.size listing.total⟩

/-- Whether there are pages after this one. -/
def hasNext {α : Type} (p : Page α) : Bool := decide (p.number < p.pages)

/-- The same page with other items. -/
def withItems {α β : Type} (p : Page α) (items : List β) : Page β :=
  ⟨items, p.number, p.size, p.total, p.pages⟩

theorem countPages_le (size total : Nat) : countPages size total ≤ maxPage := Nat.min_le_left _ _

/-- A page with a successor is not the last one that can be counted. -/
theorem number_lt_maxPage {α : Type} {r : PageRequest} {listing : Listing α}
    (h : (ofListing r listing).hasNext = true) : r.number < maxPage :=
  Nat.lt_of_lt_of_le (of_decide_eq_true h) (countPages_le _ _)

end Page

end Custodian
