import Custodian.Time.Calendar

/-!
# Time stamps in text

An instant is given as milliseconds since 1970 or as an RFC 3339 date-time. A time without
a zone, as snapshots carry it, has a form of its own: the same fields between the same
marks, but with fewer digits and blanks allowed when it is read, and written with as many
groups of three digits after the second as it needs.
-/

namespace Custodian.Time

/-! ## RFC 3339 -/

/-- Reads an offset from universal time, in minutes. -/
def readOffset : List Char → Option (Int × List Char)
  | [] => none
  | mark :: rest =>
    if mark = 'Z' ∨ mark = 'z' then some (0, rest)
    else do
      let sign : Int ←
        if mark = '+' then some 1
        else if mark = '-' ∨ mark = '\u2212' then some (-1)
        else none
      let (hours, rest) ← readDigits 2 2 rest
      let rest ← readMark [':'] rest
      let (minutes, rest) ← readDigits 2 2 rest
      if hours < 24 ∧ minutes < 60 then return (sign * (hours * 60 + minutes : Nat), rest)
      else none

/-- The milliseconds since 1970 that an RFC 3339 date-time stands for. -/
def ofRfc3339? (text : String) : Option Int := do
  let (year, rest) ← readDigits 4 4 text.toList
  let rest ← readMark ['-'] rest
  let (month, rest) ← readDigits 2 2 rest
  let rest ← readMark ['-'] rest
  let (day, rest) ← readDigits 2 2 rest
  let rest ← readMark ['T', 't', ' '] rest
  let (hour, rest) ← readDigits 2 2 rest
  let rest ← readMark [':'] rest
  let (minute, rest) ← readDigits 2 2 rest
  let rest ← readMark [':'] rest
  let (second, rest) ← readDigits 2 2 rest
  let (nanosecond, rest) ← readFraction rest
  let (offset, rest) ← readOffset rest
  let civil : Civil := ⟨year, month, day, hour, minute, second, nanosecond⟩
  if civil.isValid ∧ rest.isEmpty then return civil.millis offset else none

/-- The instant a text names, in milliseconds since 1970 or as an RFC 3339 date-time. -/
def ofText? (text : String) : Option Int64 :=
  match Text.readInt64 text with
  | .ok n => some n
  | .error _ => (ofRfc3339? text).map Int64.ofInt

/-- The complaint about a text that names no instant. -/
def unreadable (text : String) : String :=
  "'" ++ text ++ "' is neither epoch milliseconds nor RFC 3339"

/-! ## Times without a zone -/

/-- Skips white space. -/
def skipBlanks (text : List Char) : List Char := text.dropWhile Text.isBlank

/-- Reads a year: up to four digits, or any number of them behind a sign. -/
def readYear (text : List Char) : Option (Int × List Char) :=
  match skipBlanks text with
  | '-' :: rest => (readDigits 1 rest.length rest).map fun (n, rest) => (-(n : Int), rest)
  | '+' :: rest => (readDigits 1 rest.length rest).map fun (n, rest) => (Int.ofNat n, rest)
  | text => (readDigits 1 4 text).map fun (n, rest) => (Int.ofNat n, rest)

/-- Reads a field of one or two digits behind a mark, blanks before either being skipped. -/
def readField (mark : Char) (text : List Char) : Option (Nat × List Char) := do
  let rest ← readMark [mark] (skipBlanks text)
  readDigits 1 2 (skipBlanks rest)

/-- The first year there is. -/
def firstYear : Int := -262143

/-- The last year there is. -/
def lastYear : Int := 262142

/-- Reads a time without a zone. -/
def Civil.ofText? (text : String) : Option Civil := do
  let (year, rest) ← readYear text.toList
  let (month, rest) ← readField '-' rest
  let (day, rest) ← readField '-' rest
  let (hour, rest) ← readField 'T' rest
  let (minute, rest) ← readField ':' rest
  let (second, rest) ← readField ':' rest
  let (nanosecond, rest) ← readFraction rest
  let civil : Civil := ⟨year, month, day, hour, minute, second, nanosecond⟩
  if civil.isValid ∧ firstYear ≤ year ∧ year ≤ lastYear ∧ (skipBlanks rest).isEmpty then
    return civil
  else none

/-- The digits of a number, padded with zeros on the left. -/
def padded (width n : Nat) : String :=
  let digits := Nat.toDigits 10 n
  String.ofList (List.replicate (width - digits.length) '0' ++ digits)

/-- A year of four digits, or with a sign where four are not enough. -/
def yearText (year : Int) : String :=
  if 0 ≤ year ∧ year ≤ 9999 then padded 4 year.toNat
  else (if year < 0 then "-" else "+") ++ padded 4 year.natAbs

/-- The fraction of a second in as few groups of three digits as are needed. -/
def fractionText (nanosecond : Nat) : String :=
  if nanosecond = 0 then ""
  else if nanosecond % 1000000 = 0 then "." ++ padded 3 (nanosecond / 1000000)
  else if nanosecond % 1000 = 0 then "." ++ padded 6 (nanosecond / 1000)
  else "." ++ padded 9 nanosecond

/-- A time without a zone, with a mark between the date and the time of day. -/
def Civil.textWith (c : Civil) (mark : String) : String :=
  yearText c.year ++ "-" ++ padded 2 c.month ++ "-" ++ padded 2 c.day ++ mark ++
    padded 2 c.hour ++ ":" ++ padded 2 c.minute ++ ":" ++ padded 2 c.second ++
    fractionText c.nanosecond

/-- The written form of a time without a zone. -/
def Civil.toText (c : Civil) : String := c.textWith "T"

/-! ## Times in a column -/

/-- A time without a zone that exists. -/
structure Timestamp where
  civil : Civil
  isValid : civil.isValid = true
  deriving DecidableEq, Repr

/-- The form of a time in a column of a table. -/
def Timestamp.columnText (t : Timestamp) : String := t.civil.textWith " "

/-- The form of an instant in a column of a table. -/
def columnText (millis : Int64) : String := (Civil.ofMillis millis.toInt).textWith " "

/-- Reads a field of one or two digits right behind a mark, blanks before the digits being
skipped. -/
def readColumnField (mark : Char) (text : List Char) : Option (Nat × List Char) := do
  let rest ← readMark [mark] text
  readDigits 1 2 (skipBlanks rest)

/-- Reads a time in the form that columns hold. Blanks stand between the date and the time of
day, and nothing may follow. No other form is ever written into a column. -/
def Timestamp.ofColumnText? (text : String) : Option Timestamp := do
  let (year, rest) ← readYear text.toList
  let (month, rest) ← readColumnField '-' rest
  let (day, rest) ← readColumnField '-' rest
  let (hour, rest) ← readDigits 1 2 (skipBlanks rest)
  let (minute, rest) ← readColumnField ':' rest
  let (second, rest) ← readColumnField ':' rest
  let (nanosecond, rest) ← readFraction rest
  let civil : Civil := ⟨year, month, day, hour, minute, second, nanosecond⟩
  if isValid : civil.isValid ∧ rest.isEmpty then return ⟨civil, isValid.1⟩ else none

end Custodian.Time
