import Linkage.Toml.Key

namespace Linkage.Toml.Printer

/-- The length of the longest row of one character. -/
def longestRow (mark : Char) (longest current : Nat) : List Char → Nat
  | [] => max longest current
  | c :: cs =>
    if c = mark then longestRow mark longest (current + 1) cs
    else longestRow mark (max longest current) 0 cs

/-- Control characters that cannot stand for themselves in any marks. -/
def needsCode (c : Char) : Bool := Lexer.isControl c && c != '\n'

inductive Marks where
  | basic
  | literal
  | basicBlock
  | literalBlock
  deriving DecidableEq, Repr

def Marks.chars : Marks → List Char
  | .basic => ['"']
  | .literal => ['\'']
  | .basicBlock => ['"', '"', '"']
  | .literalBlock => ['\'', '\'', '\'']

def Marks.isBlock : Marks → Bool
  | .basicBlock => true
  | .literalBlock => true
  | _ => false

/-- The marks of a text on one line, if it can do without escapes. -/
def lineMarks? (cs : List Char) : Option Marks :=
  if cs.any needsCode || cs.contains '\n' then none
  else if !cs.contains '\\' && !cs.contains '"' then some .basic
  else if !cs.contains '\'' then some .literal
  else none

/-- The marks of a text: the first in which it can do without escapes, else basic ones. -/
def marks (cs : List Char) : Marks :=
  match lineMarks? cs with
  | some m => m
  | none =>
    if cs.any needsCode then (if cs.contains '\n' then .basicBlock else .basic)
    else if !cs.contains '\\' && longestRow '"' 0 0 cs ≤ 2 then .basicBlock
    else if longestRow '\'' 0 0 cs ≤ 2 then .literalBlock
    else if cs.contains '\n' then .basicBlock
    else .basic

def code (n : Nat) : List Char :=
  let digits := (Nat.toDigits 16 n).map Char.toUpper
  '\\' :: 'u' :: (List.replicate (4 - digits.length) '0' ++ digits)

def escape (inBlock : Bool) (c : Char) : List Char :=
  if c = '\n' ∧ inBlock then [c]
  else if c = '\x08' then ['\\', 'b']
  else if c = '\t' then ['\\', 't']
  else if c = '\n' then ['\\', 'n']
  else if c = '\x0c' then ['\\', 'f']
  else if c = '\r' then ['\\', 'r']
  else if c = '\\' then ['\\', '\\']
  else if Lexer.isControl c then code c.toNat
  else [c]

/-- A text between basic marks. In a row of quotation marks every third one is escaped within a
block, and each one on a line. -/
def escapeAll (inBlock : Bool) (row : Nat) : List Char → List Char
  | [] => []
  | c :: cs =>
    if c = '"' then
      if inBlock ∧ row < 2 then c :: escapeAll inBlock (row + 1) cs
      else '\\' :: c :: escapeAll inBlock 0 cs
    else escape inBlock c ++ escapeAll inBlock 0 cs

/-- A text between given marks. A block that holds a line end begins on a new line. -/
def textIn (m : Marks) (cs : List Char) : String :=
  let front := if m.isBlock && cs.contains '\n' then ['\n'] else []
  let inner := match m with
    | .basic => escapeAll false 0 cs
    | .basicBlock => escapeAll true 0 cs
    | _ => cs
  String.ofList (m.chars ++ front ++ inner ++ m.chars)

def text (s : String) : String := textIn (marks s.toList) s.toList

def key (s : String) : String :=
  let cs := s.toList
  if !cs.isEmpty && cs.all KeyPart.isBare then s else textIn ((lineMarks? cs).getD .basic) cs

def texts : List String → String
  | [] => "[]"
  | [s] => "[" ++ text s ++ "]"
  | list => "[\n" ++ String.join (list.map fun s => "    " ++ text s ++ ",\n") ++ "]"

def line (name printed : String) : String := key name ++ " = " ++ printed ++ "\n"

end Linkage.Toml.Printer
