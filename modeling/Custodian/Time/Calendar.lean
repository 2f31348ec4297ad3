import Custodian.Text.Blank
import Custodian.Text.Integer

/-!
# Calendar dates and times of day

Dates of the Gregorian calendar, extended to all years, and their distance from the first
of January 1970. A time of day may name second 60 for a leap second.
-/

namespace Custodian.Time

-- Powers are those of the core library, whatever else is in scope.
attribute [local instance(1100)] instPowNat

/-- A date and a time of day, without a zone. -/
structure Civil where
  year : Int
  month : Nat
  day : Nat
  hour : Nat
  minute : Nat
  /-- From 0 to 60, 60 being a leap second. -/
  second : Nat
  nanosecond : Nat
  deriving DecidableEq, Repr

/-- Whether a year has a 29th of February. -/
def isLeapYear (year : Int) : Bool :=
  year % 4 == 0 && (year % 100 != 0 || year % 400 == 0)

/-- The lengths of the months of a year. -/
def monthLengths (year : Int) : List Nat :=
  [31, if isLeapYear year then 29 else 28, 31, 30, 31, 30, 31, 31, 30, 31, 30, 31]

/-- The days of a year before the first of a month. -/
def daysBeforeMonth (year : Int) (month : Nat) : Nat :=
  ((monthLengths year).take (month - 1)).foldl (· + ·) 0

/-- The days from the first of January of year 1 to that of the given year. -/
def daysBeforeYear (year : Int) : Int :=
  let y := year - 1
  365 * y + y / 4 - y / 100 + y / 400

namespace Civil

/-- Whether the date exists and the time is one of a day. -/
def isValid (c : Civil) : Bool :=
  decide (1 ≤ c.month ∧ 1 ≤ c.day) &&
    ((monthLengths c.year)[c.month - 1]?.any fun length => decide (c.day ≤ length)) &&
    decide (c.hour < 24 ∧ c.minute < 60 ∧ c.second ≤ 60 ∧ c.nanosecond < 1000000000)

/-- The days since the first of January 1970. -/
def dayNumber (c : Civil) : Int :=
  daysBeforeYear c.year - daysBeforeYear 1970 + daysBeforeMonth c.year c.month +
    (c.day - 1 : Nat)

/-- The milliseconds since 1970 in a zone that is `offset` minutes ahead. Second 60 is the
second after second 59. -/
def millis (c : Civil) (offset : Int) : Int :=
  ((c.dayNumber * 24 + c.hour) * 60 + c.minute - offset) * 60000 + c.second * 1000 +
    (c.nanosecond / 1000000 : Nat)

end Civil

/-! ## The date of an instant -/

/-- The year of the day that comes `day` days after the first of January of year 1. A year
has 146097/400 days on average, so the quotient misses the year by one at most. -/
def yearOf (day : Int) : Int :=
  let guess := day * 400 / 146097 + 1
  if day < daysBeforeYear guess then guess - 1
  else if daysBeforeYear (guess + 1) ≤ day then guess + 1
  else guess

/-- The month and the day of the month that come `days` days after the first of a month, given
the lengths of that month and of those after it. -/
def monthAndDay (month days : Nat) : List Nat → Nat × Nat
  | length :: lengths =>
    if days < length then (month, days + 1) else monthAndDay (month + 1) (days - length) lengths
  | [] => (month, days + 1)

/-- The date and the time of day, in universal time, of an instant in milliseconds since
1970. -/
def Civil.ofMillis (millis : Int) : Civil :=
  let day := millis / 86400000 + daysBeforeYear 1970
  let time := (millis % 86400000).toNat
  let year := yearOf day
  let (month, dayOfMonth) := monthAndDay 1 (day - daysBeforeYear year).toNat (monthLengths year)
  { year := year, month := month, day := dayOfMonth
    hour := time / 3600000, minute := time / 60000 % 60, second := time / 1000 % 60
    nanosecond := time % 1000 * 1000000 }

/-! ## Reading digits -/

/-- Reads between `least` and `most` digits. -/
def readDigits (least most : Nat) (text : List Char) : Option (Nat × List Char) :=
  let digits := (text.take most).takeWhile fun c => (Text.digit? c).isSome
  if digits.length < least then none
  else
    some (digits.foldl (fun n c => 10 * n + (Text.digit? c).getD 0) 0, text.drop digits.length)

/-- Reads one of the given characters. -/
def readMark (marks : List Char) : List Char → Option (List Char)
  | c :: rest => if marks.contains c then some rest else none
  | [] => none

/-- Reads a fraction of a second, if a point comes next, in nanoseconds. Digits after the
ninth are skipped. -/
def readFraction : List Char → Option (Nat × List Char)
  | '.' :: rest =>
    let digits := rest.takeWhile fun c => (Text.digit? c).isSome
    match readDigits 1 9 rest with
    | none => none
    | some (n, _) => some (n * 10 ^ (9 - min 9 digits.length), rest.drop digits.length)
  | text => some (0, text)

end Custodian.Time
