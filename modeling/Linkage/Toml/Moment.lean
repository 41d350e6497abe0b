import Linkage.Text.Integer

namespace Linkage.Toml

open Linkage.Text (digit? padded)

/-- A day of a year that has four digits. -/
structure Date where
  year : Nat
  month : Nat
  day : Nat
  deriving DecidableEq, Repr

/-- A time of day. The second may be a sixtieth, and has a fraction in billionths. -/
structure TimeOfDay where
  hour : Nat
  minute : Nat
  second : Nat
  nanos : Nat
  deriving DecidableEq, Repr

/-- What a clock is set by: universal time, or a number of minutes away from it. -/
inductive Offset where
  | universal
  | minutes (n : Int)
  deriving DecidableEq, Repr

/-- A moment, as far as it is told. -/
structure Moment where
  date : Option Date
  time : Option TimeOfDay
  offset : Option Offset
  deriving DecidableEq, Repr

def two? (low high : Nat) (a b : Char) : Option Nat := do
  let n := 10 * (← digit? a) + (← digit? b)
  if low ≤ n ∧ n ≤ high then return n else none

namespace Date

def lastDay (year month : Nat) : Nat :=
  let leap := year % 4 = 0 ∧ (year % 100 ≠ 0 ∨ year % 400 = 0)
  if month = 2 then (if leap then 29 else 28)
  else if month = 4 ∨ month = 6 ∨ month = 9 ∨ month = 11 then 30
  else 31

def read? : List Char → Option (Date × List Char)
  | a :: b :: c :: d :: '-' :: e :: f :: '-' :: g :: h :: rest => do
    let year := 100 * (← two? 0 99 a b) + (← two? 0 99 c d)
    let month ← two? 1 12 e f
    let day ← two? 1 (lastDay year month) g h
    return (⟨year, month, day⟩, rest)
  | _ => none

def text (d : Date) : String := padded 4 d.year ++ "-" ++ padded 2 d.month ++ "-" ++ padded 2 d.day

end Date

namespace TimeOfDay

/-- The billionths that digits after a point denote; from the tenth on they are left out. -/
def nanosOfDigits (digits : List Nat) : Nat :=
  (digits ++ List.replicate 9 0).take 9 |>.foldl (fun n d => 10 * n + d) 0

/-- Reads the fraction of a second, if there is one, and gives the rest of the text. -/
def readFraction? : List Char → Option (Nat × List Char)
  | '.' :: rest =>
    let digits := (rest.takeWhile Char.isDigit).filterMap digit?
    if digits.isEmpty then none else some (nanosOfDigits digits, rest.dropWhile Char.isDigit)
  | rest => some (0, rest)

/-- Reads a time of day, and gives the rest of the text. -/
def read? : List Char → Option (TimeOfDay × List Char)
  | a :: b :: ':' :: c :: d :: ':' :: e :: f :: rest => do
    let hour ← two? 0 23 a b
    let minute ← two? 0 59 c d
    let second ← two? 0 60 e f
    let (nanos, rest) ← readFraction? rest
    return (⟨hour, minute, second, nanos⟩, rest)
  | _ => none

/-- The digits after the point, without zeros at their end. -/
def fractionText (nanos : Nat) : String :=
  if nanos = 0 then ""
  else
    let digits := ((padded 9 nanos).toList.reverse.dropWhile (· == '0')).reverse
    "." ++ String.ofList digits

/-- The text `hh:mm:ss`, with a fraction unless it is zero. -/
def text (t : TimeOfDay) : String :=
  padded 2 t.hour ++ ":" ++ padded 2 t.minute ++ ":" ++ padded 2 t.second ++ fractionText t.nanos

end TimeOfDay

namespace Offset

/-- Reads an offset that fills a text. -/
def ofChars? : List Char → Option Offset
  | ['Z'] => some .universal
  | ['z'] => some .universal
  | [sign, a, b, ':', c, d] => do
    let size := 60 * (← two? 0 23 a b) + (← two? 0 59 c d)
    if sign = '+' then return .minutes size
    else if sign = '-' then return .minutes (-size)
    else none
  | _ => none

/-- The text `Z`, or `hh:mm` with a sign. -/
def text : Offset → String
  | .universal => "Z"
  | .minutes n =>
    (if n < 0 then "-" else "+") ++ padded 2 (n.natAbs / 60) ++ ":" ++ padded 2 (n.natAbs % 60)

end Offset

namespace Moment

def ofTime? (cs : List Char) : Option Moment :=
  match TimeOfDay.read? cs with
  | some (t, []) => some ⟨none, some t, none⟩
  | _ => none

/-- A date with a time of day, and with an offset if more follows. -/
def ofDateAndTime? (d : Date) (cs : List Char) : Option Moment :=
  match TimeOfDay.read? cs with
  | some (t, []) => some ⟨some d, some t, none⟩
  | some (t, rest) => (Offset.ofChars? rest).map fun offset => ⟨some d, some t, some offset⟩
  | none => none

/-- The moment of a word. A date and a time of day have a `T` or a space between them. -/
def ofChars? (cs : List Char) : Option Moment :=
  match Date.read? cs with
  | some (d, []) => some ⟨some d, none, none⟩
  | some (d, c :: rest) =>
    if c = 'T' ∨ c = 't' ∨ c = ' ' then ofDateAndTime? d rest else none
  | none => ofTime? cs

def text (m : Moment) : String :=
  let date := (m.date.map Date.text).getD ""
  let time := (m.time.map TimeOfDay.text).getD ""
  let between := if m.date.isSome && m.time.isSome then "T" else ""
  date ++ between ++ time ++ (m.offset.map Offset.text).getD ""

end Moment

end Linkage.Toml
