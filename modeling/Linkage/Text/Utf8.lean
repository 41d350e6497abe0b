/-!
Texts as bytes, and any row of bytes as a text. A sequence that breaks off, or a byte that can begin
none, becomes one replacement character; the byte that broke a sequence off is read anew.
-/

namespace Linkage.Text.Utf8

/-- The bytes of a character, from one to four. -/
def encode (c : Char) : List Nat :=
  let n := c.toNat
  if n < 0x80 then [n]
  else if n < 0x800 then [0xC0 + n / 64, 0x80 + n % 64]
  else if n < 0x10000 then [0xE0 + n / 4096, 0x80 + n / 64 % 64, 0x80 + n % 64]
  else [0xF0 + n / 262144, 0x80 + n / 4096 % 64, 0x80 + n / 64 % 64, 0x80 + n % 64]

/-- What stands for bytes that form no character. -/
def replacement : Char := '\uFFFD'

/-- A sequence that has begun: how many bytes are still to come, the bits read so far, and the
range of the next byte. -/
structure Pending where
  missing : Nat
  bits : Nat
  low : Nat
  high : Nat
  deriving DecidableEq, Repr

/-- A character, or the beginning of a sequence. -/
inductive Step where
  | char (c : Char)
  | pending (p : Pending)
  deriving DecidableEq, Repr

/-- A byte that begins a character. The ranges leave out overlong forms, halves of pairs, and
numbers beyond the last character. -/
def begin (b : Nat) : Step :=
  if b < 0x80 then .char (Char.ofNat b)
  else if 0xC2 ≤ b ∧ b ≤ 0xDF then .pending ⟨1, b - 0xC0, 0x80, 0xBF⟩
  else if b = 0xE0 then .pending ⟨2, 0, 0xA0, 0xBF⟩
  else if b = 0xED then .pending ⟨2, 0xD, 0x80, 0x9F⟩
  else if 0xE1 ≤ b ∧ b ≤ 0xEF then .pending ⟨2, b - 0xE0, 0x80, 0xBF⟩
  else if b = 0xF0 then .pending ⟨3, 0, 0x90, 0xBF⟩
  else if 0xF1 ≤ b ∧ b ≤ 0xF3 then .pending ⟨3, b - 0xF0, 0x80, 0xBF⟩
  else if b = 0xF4 then .pending ⟨3, 4, 0x80, 0x8F⟩
  else .char replacement

def Pending.push (p : Pending) (b : Nat) : Step :=
  let bits := p.bits * 64 + (b - 0x80)
  if p.missing ≤ 1 then .char (Char.ofNat bits) else .pending ⟨p.missing - 1, bits, 0x80, 0xBF⟩

/-- The characters read so far, newest first, and the sequence that has begun. -/
structure Decoder where
  read : List Char
  pending : Option Pending
  deriving DecidableEq, Repr

def Decoder.advance (read : List Char) : Step → Decoder
  | .char c => ⟨c :: read, none⟩
  | .pending p => ⟨read, some p⟩

def Decoder.step (d : Decoder) (b : Nat) : Decoder :=
  match d.pending with
  | none => advance d.read (begin b)
  | some p =>
    if p.low ≤ b ∧ b ≤ p.high then advance d.read (p.push b)
    else advance (replacement :: d.read) (begin b)

def Decoder.finish (d : Decoder) : List Char :=
  match d.pending with
  | none => d.read.reverse
  | some _ => (replacement :: d.read).reverse

def decode (bytes : List Nat) : List Char := (bytes.foldl Decoder.step ⟨[], none⟩).finish

end Linkage.Text.Utf8
