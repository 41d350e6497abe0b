import Linkage.Json.Number
import Linkage.Toml.Value

namespace Linkage.Toml.Scalar

open Linkage.Text (hexDigit?)
open Linkage.Decimal (Binary64)

/-- Takes out the underscores; each has to stand between two digits. -/
def joinDigits? (isDigit : Char → Bool) (afterDigit : Bool) : List Char → Option (List Char)
  | [] => some []
  | '_' :: c :: rest =>
    if afterDigit && isDigit c then (joinDigits? isDigit true rest).map (c :: ·) else none
  | c :: rest =>
    if c = '_' then none else (joinDigits? isDigit (isDigit c) rest).map (c :: ·)

/-- A digit of a base up to sixteen. -/
def isDigitOf (base : Nat) (c : Char) : Bool :=
  match hexDigit? c with
  | some d => decide (d < base)
  | none => false

def natOfBase? (base : Nat) (cs : List Char) : Option Nat := do
  let digits ← joinDigits? (isDigitOf base) false cs
  if digits.isEmpty || !digits.all (isDigitOf base) then none
  else return digits.foldl (fun n c => base * n + (hexDigit? c).getD 0) 0

def withoutPlus : List Char → List Char
  | '+' :: c :: rest => if c.isDigit then c :: rest else '+' :: c :: rest
  | cs => cs

def numeral? (cs : List Char) : Option Json.Numeral :=
  (joinDigits? Char.isDigit false (withoutPlus cs)).bind Json.Numeral.ofChars?

def natOfDigits (digits : List Nat) : Nat := digits.foldl (fun n d => 10 * n + d) 0

/-- The integer of a numeral without fraction and exponent. -/
def wholeNumber? (n : Json.Numeral) : Option Int :=
  if n.fraction.isEmpty && n.exponent.isNone then
    let size := natOfDigits n.whole
    some (if n.negative then -(size : Int) else size)
  else none

def integer? (cs : List Char) : Option Int64 :=
  match cs with
  | '0' :: 'x' :: rest => (natOfBase? 16 rest).bind fun n => Text.int64OfInt? n
  | '0' :: 'o' :: rest => (natOfBase? 8 rest).bind fun n => Text.int64OfInt? n
  | '0' :: 'b' :: rest => (natOfBase? 2 rest).bind fun n => Text.int64OfInt? n
  | cs => ((numeral? cs).bind wholeNumber?).bind Text.int64OfInt?

/-- The words for values that no digits denote. -/
def specialReals : List String := ["inf", "+inf", "-inf", "nan", "+nan", "-nan"]

/-- The power of ten that an exponent stands for. -/
def exponentOf : Option (Bool × List Nat) → Int
  | some (negative, digits) =>
    let size : Nat := natOfDigits digits
    if negative then -(size : Int) else size
  | none => 0

/-- Where the first digit of the greatest doubles stands, counted from the point. -/
def greatestOrder : Int := 309

/-- The digits of a numeral from the first that is not zero. -/
def significant (n : Json.Numeral) : List Nat := (n.whole ++ n.fraction).dropWhile (· == 0)

/-- The magnitude of a numeral is nearer to some double than to what would be the next after the
greatest. -/
def isWithinDoubles (n : Json.Numeral) : Bool :=
  let digits := significant n
  let power := exponentOf n.exponent - n.fraction.length
  let order := power + digits.length
  if digits.isEmpty || order < greatestOrder then true
  else if greatestOrder < order then false
  else
    match power with
    | .ofNat k => (Binary64.ofNat? (natOfDigits digits * Nat.pow 10 k)).isSome
    | .negSucc k => (Binary64.ofRatio? (natOfDigits digits) (Nat.pow 10 (k + 1))).isSome

/-- A number that is not an integer as written. It may be of any size below zero. -/
def real? (cs : List Char) : Option Value :=
  if specialReals.contains (String.ofList cs) then some (.real cs)
  else (numeral? cs).bind fun n =>
    if n.fraction.isEmpty && n.exponent.isNone then none
    else if n.negative || isWithinDoubles n then some (.real cs)
    else none

def ofRun? (cs : List Char) : Option Value :=
  if cs = ['t', 'r', 'u', 'e'] then some (.bool true)
  else if cs = ['f', 'a', 'l', 's', 'e'] then some (.bool false)
  else
    match integer? cs with
    | some n => some (.integer n)
    | none =>
      match real? cs with
      | some v => some v
      | none => (Moment.ofChars? cs).map .moment

end Linkage.Toml.Scalar
