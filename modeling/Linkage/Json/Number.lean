import Linkage.Decimal.Shortest
import Linkage.Text.Integer

namespace Linkage.Json

open Linkage.Text (digit?)
open Linkage.Decimal (Binary64)

/-- A number as written: a sign, the digits before and after the point, and an exponent. No
fraction digits stand for no point. -/
structure Numeral where
  negative : Bool
  whole : List Nat
  fraction : List Nat
  exponent : Option (Bool × List Nat)
  deriving DecidableEq, Repr

namespace Numeral

def takeDigits (cs : List Char) : List Nat × List Char :=
  ((cs.takeWhile Char.isDigit).filterMap digit?, cs.dropWhile Char.isDigit)

/-- At least one digit, and no zero in front of others. -/
def wholeIsRegular : List Nat → Bool
  | [] => false
  | [_] => true
  | d :: _ => d != 0

/-- The exponent part, to the end of the text: true with the digits of a negative one. -/
def exponent? : List Char → Option (Option (Bool × List Nat))
  | [] => some none
  | c :: cs =>
    if c = 'e' ∨ c = 'E' then
      let (negative, cs) : Bool × List Char := match cs with
        | '-' :: rest => (true, rest)
        | '+' :: rest => (false, rest)
        | rest => (false, rest)
      let (digits, rest) := takeDigits cs
      if digits.isEmpty || !rest.isEmpty then none else some (some (negative, digits))
    else none

def fraction? : List Char → Option (List Nat × List Char)
  | '.' :: cs =>
    let (digits, rest) := takeDigits cs
    if digits.isEmpty then none else some (digits, rest)
  | cs => some ([], cs)

def ofChars? (cs : List Char) : Option Numeral :=
  let (negative, cs) : Bool × List Char := match cs with
    | '-' :: rest => (true, rest)
    | rest => (false, rest)
  let (whole, rest) := takeDigits cs
  if wholeIsRegular whole then do
    let (fraction, rest) ← fraction? rest
    let exponent ← exponent? rest
    return ⟨negative, whole, fraction, exponent⟩
  else none

end Numeral

/-- A number as understood: an integer, or a double given by its sign and magnitude. -/
inductive Number where
  | int (n : Int)
  | double (negative : Bool) (magnitude : Binary64)
  deriving DecidableEq, Repr

namespace Number

/-- The largest significand that is kept while digits are read. -/
def significandLimit : Nat := Nat.pow 2 64 - 1

/-- A significand with the power of ten that it is still to be multiplied by. `full` says that
digits have been left out. -/
structure Significand where
  value : Nat
  power : Int
  full : Bool
  deriving DecidableEq, Repr

/-- A digit before the point joins the significand while it fits; from the first that does not,
each counts as a power of ten. -/
def Significand.pushWhole (s : Significand) (d : Nat) : Significand :=
  if s.full || decide (significandLimit < s.value * 10 + d) then
    { s with power := s.power + 1, full := true }
  else { s with value := s.value * 10 + d }

/-- A digit after the point joins the significand while it fits; from the first that does not,
all are left out. -/
def Significand.pushFraction (s : Significand) (d : Nat) : Significand :=
  if s.full || decide (significandLimit < s.value * 10 + d) then { s with full := true }
  else { s with value := s.value * 10 + d, power := s.power - 1 }

/-- The largest exponent that is told from larger ones. -/
def exponentLimit : Nat := Nat.pow 2 31 - 1

/-- The double for a significand and a power of ten; none when it is too large. -/
def scaled? (negative : Bool) (value : Nat) (power : Int) : Option Number := do
  return .double negative (← (← Binary64.ofNat? value).timesPowerOfTen? power)

/-- The double of a significand under a written exponent. An exponent beyond the limit gives
zero, or is out of range when it is positive and the significand is not zero. -/
def raised? (negative : Bool) (s : Significand) (exponent : Bool × List Nat) : Option Number :=
  let size := exponent.2.foldl (fun read d => 10 * read + d) 0
  if exponentLimit < size then
    if s.value ≠ 0 ∧ exponent.1 = false then none else some (.double negative Binary64.zero)
  else scaled? negative s.value (if exponent.1 then s.power - size else s.power + size)

/-- An integer without fraction and exponent. The negative ones that do not fit, and minus zero,
are doubles. -/
def ofWhole? (negative : Bool) (value : Nat) : Option Number :=
  if negative then
    if value = 0 ∨ Nat.pow 2 63 < value then scaled? true value 0 else some (.int (-value))
  else some (.int value)

/-- The number that a numeral denotes; none when it is too large for a double. -/
def ofNumeral? (n : Numeral) : Option Number :=
  let whole := n.whole.foldl Significand.pushWhole ⟨0, 0, false⟩
  let all := n.fraction.foldl Significand.pushFraction { whole with full := false }
  match n.exponent with
  | some exponent => raised? n.negative all exponent
  | none =>
    if n.fraction.isEmpty && !whole.full then ofWhole? n.negative whole.value
    else scaled? n.negative all.value all.power

def int64? : Number → Option Int64
  | .int n => Text.int64OfInt? n
  | .double _ _ => none

def int32? : Number → Option Int32
  | .int n => Text.int32OfInt? n
  | .double _ _ => none

/-- How doubles are written: leading digits from `10 ^ least` to `10 ^ greatest` positionally. -/
structure Layout where
  least : Int
  greatest : Int

/-- Doubles from `1e-5` up to `1e16` are written positionally. -/
def layout : Layout := ⟨-5, 15⟩

/-- Digits placed around the point; at least one digit stands on each side. -/
def positional (digits : List Char) (order : Int) : List Char :=
  if order < 0 then '0' :: '.' :: List.replicate (-order - 1).toNat '0' ++ digits
  else
    let whole := (order + 1).toNat
    if digits.length ≤ whole then
      digits ++ List.replicate (whole - digits.length) '0' ++ ['.', '0']
    else digits.take whole ++ '.' :: digits.drop whole

/-- One digit before the point, the rest after it, and a signed exponent. -/
def exponential (digits : List Char) (order : Int) : List Char :=
  let mantissa := match digits with
    | d :: e :: rest => d :: '.' :: e :: rest
    | short => short
  let sign := if order < 0 then '-' else '+'
  mantissa ++ 'e' :: sign :: Nat.toDigits 10 order.natAbs

def magnitudeChars (x : Binary64) : List Char :=
  if x.mantissa = 0 then ['0', '.', '0']
  else
    let shortest := x.shortest
    let digits := Nat.toDigits 10 shortest.digits
    let order := shortest.exponent + digits.length - 1
    if layout.least ≤ order ∧ order ≤ layout.greatest then positional digits order
    else exponential digits order

def text : Number → String
  | .int n => Text.decimal n
  | .double negative x =>
    String.ofList (if negative then '-' :: magnitudeChars x else magnitudeChars x)

end Number

end Linkage.Json
