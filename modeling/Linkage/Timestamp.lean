import Linkage.Text.Integer

/-!
Instants of universal time and their text. A billion nanoseconds or more stand for a leap
second.
-/

namespace Linkage

structure Timestamp where
  seconds : Int
  nanos : Nat
  deriving DecidableEq, Repr

structure CivilDate where
  year : Int
  month : Nat
  day : Nat
  deriving DecidableEq, Repr

/-- The date a number of days after the first of January 1970. Years are counted from March, so
that a leap day ends its year; 400 years have 146097 days. -/
def CivilDate.ofDays (days : Int) : CivilDate :=
  let shifted := days + 719468
  let cycle := shifted / 146097
  let dayOfCycle := (shifted % 146097).toNat
  let yearOfCycle :=
    (dayOfCycle - dayOfCycle / 1460 + dayOfCycle / 36524 - dayOfCycle / 146096) / 365
  let dayOfYear := dayOfCycle - (365 * yearOfCycle + yearOfCycle / 4 - yearOfCycle / 100)
  let marchMonth := (5 * dayOfYear + 2) / 153
  let month := if marchMonth < 10 then marchMonth + 3 else marchMonth - 9
  let year := (yearOfCycle : Int) + cycle * 400
  ⟨if month ≤ 2 then year + 1 else year, month, dayOfYear - (153 * marchMonth + 2) / 5 + 1⟩

namespace Timestamp

open Text (padded)

/-- Whole milliseconds since the start of 1970; zero before it. -/
def millis (t : Timestamp) : Nat := (t.seconds * 1000).toNat + t.nanos / 1000000

/-- A year has at least four digits, and a sign outside 0 to 9999. -/
def yearText (year : Int) : String :=
  if year < 0 then "-" ++ padded 4 year.natAbs
  else if 9999 < year then "+" ++ padded 4 year.natAbs
  else padded 4 year.natAbs

/-- The date and the seconds of its day. -/
def split (t : Timestamp) : CivilDate × Nat :=
  (CivilDate.ofDays (t.seconds / 86400), (t.seconds % 86400).toNat)

/-- The text `YYYY-MM-DDThh:mm:ss.mmmZ`. A leap second is the sixtieth of its minute. -/
def text (t : Timestamp) : String :=
  let (date, second) := t.split
  yearText date.year ++ "-" ++ padded 2 date.month ++ "-" ++ padded 2 date.day ++ "T"
    ++ padded 2 (second / 3600) ++ ":" ++ padded 2 (second / 60 % 60) ++ ":"
    ++ padded 2 (second % 60 + t.nanos / 1000000000) ++ "."
    ++ padded 3 (t.nanos / 1000000 % 1000) ++ "Z"

def buildNumber (t : Timestamp) : String :=
  let (date, second) := t.split
  yearText date.year ++ "_" ++ padded 2 date.month ++ "_" ++ padded 2 date.day ++ "__"
    ++ padded 2 (second / 3600) ++ "_" ++ padded 2 (second / 60 % 60)

end Timestamp

end Linkage
