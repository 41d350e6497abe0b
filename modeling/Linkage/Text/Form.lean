import Linkage.Text.Cutting
import Linkage.Text.Integer
import Linkage.Text.Utf8

/-!
Query strings: names and values, percent-encoded, joined by `=` and `&`. Between two `&` stands one
pair, if anything; a pair without `=` has an empty value.
-/

namespace Linkage.Text.Form

/-- The bytes that stand for themselves: letters, digits and `*-._`. -/
def isPlain (b : Nat) : Bool :=
  (decide (b < 0x80) && (Char.ofNat b).isAlphanum) ||
    b == '*'.toNat || b == '-'.toNat || b == '.'.toNat || b == '_'.toNat

def hexChar (n : Nat) : Char := (Nat.digitChar n).toUpper

/-- A byte as written: itself, a plus sign for a space, or a percent sign with two digits. -/
def encodeByte (b : Nat) : List Char :=
  if isPlain b then [Char.ofNat b]
  else if b = 0x20 then ['+']
  else ['%', hexChar (b / 16), hexChar (b % 16)]

def encodePart (s : String) : List Char := (s.toList.flatMap Utf8.encode).flatMap encodeByte

def encodePair (pair : String × String) : List Char :=
  encodePart pair.1 ++ '=' :: encodePart pair.2

/-- Pairs as written, with `&` between them. -/
def encode (pairs : List (String × String)) : String :=
  String.ofList (['&'].intercalate (pairs.map encodePair))

def plusToSpace (c : Char) : Char := if c = '+' then ' ' else c

def hexValue? (b : Nat) : Option Nat :=
  if b < 0x80 then hexDigit? (Char.ofNat b) else none

/-- Replaces each percent sign that has two hexadecimal digits after it. -/
def percentDecode : List Nat → List Nat
  | b :: high :: low :: rest =>
    if b = '%'.toNat then
      match hexValue? high, hexValue? low with
      | some h, some l => (16 * h + l) :: percentDecode rest
      | _, _ => b :: percentDecode (high :: low :: rest)
    else b :: percentDecode (high :: low :: rest)
  | rest => rest

def decodePart (cs : List Char) : String :=
  String.ofList (Utf8.decode (percentDecode ((cs.map plusToSpace).flatMap Utf8.encode)))

/-- A pair as read: name and value are split at the first `=`. -/
def decodePair (cs : List Char) : String × String :=
  (decodePart (cs.takeWhile (· != '=')), decodePart ((cs.dropWhile (· != '=')).drop 1))

def decode (query : String) : List (String × String) :=
  ((splitAtEach '&' query.toList).filter fun part => !part.isEmpty).map decodePair

end Linkage.Text.Form
