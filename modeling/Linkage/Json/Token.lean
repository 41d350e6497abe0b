import Linkage.Json.Number
import Linkage.Json.Quoted

namespace Linkage.Json

inductive Token where
  | beginArray
  | endArray
  | beginObject
  | endObject
  | colon
  | comma
  | null
  | bool (b : Bool)
  | number (n : Numeral)
  | quoted (pieces : List Piece)
  deriving DecidableEq, Repr

namespace Token

def mark? : Char → Option Token
  | '[' => some .beginArray
  | ']' => some .endArray
  | '{' => some .beginObject
  | '}' => some .endObject
  | ':' => some .colon
  | ',' => some .comma
  | _ => none

def isSpace (c : Char) : Bool := c == ' ' || c == '\t' || c == '\n' || c == '\r'

/-- A run of characters without spaces, marks and quotes: a word or a numeral. -/
def ofRun? : List Char → Option Token
  | ['n', 'u', 'l', 'l'] => some .null
  | ['t', 'r', 'u', 'e'] => some (.bool true)
  | ['f', 'a', 'l', 's', 'e'] => some (.bool false)
  | cs => (Numeral.ofChars? cs).map .number

end Token

/-- Where a lexer stands: between tokens, in a run, in a quoted text, after its backslash, or
within an escape with some of its four digits read. What has been read is kept newest first. -/
inductive Mode where
  | between
  | run (read : List Char)
  | quoted (read : List Piece)
  | backslash (read : List Piece)
  | code (read : List Piece) (digits : Nat) (unit : Nat)
  deriving DecidableEq, Repr

/-- The tokens read so far, newest first, and where the lexer stands. -/
structure Lexer where
  tokens : List Token
  mode : Mode
  deriving DecidableEq, Repr

namespace Lexer

def start : Lexer := ⟨[], .between⟩

/-- A character that does not continue the token before it. -/
def open? (tokens : List Token) (c : Char) : Lexer :=
  if Token.isSpace c then ⟨tokens, .between⟩
  else if c = '"' then ⟨tokens, .quoted []⟩
  else match Token.mark? c with
    | some mark => ⟨mark :: tokens, .between⟩
    | none => ⟨tokens, .run [c]⟩

def endsRun (c : Char) : Bool := Token.isSpace c || c == '"' || (Token.mark? c).isSome

def step (l : Lexer) (c : Char) : Option Lexer :=
  match l.mode with
  | .between => some (open? l.tokens c)
  | .run read =>
    if endsRun c then (Token.ofRun? read.reverse).map fun t => open? (t :: l.tokens) c
    else some ⟨l.tokens, .run (c :: read)⟩
  | .quoted read =>
    if c = '"' then some ⟨.quoted read.reverse :: l.tokens, .between⟩
    else if c = '\\' then some ⟨l.tokens, .backslash read⟩
    else if Quoted.isControl c then none
    else some ⟨l.tokens, .quoted (.char c :: read)⟩
  | .backslash read =>
    if c = 'u' then some ⟨l.tokens, .code read 0 0⟩
    else (Quoted.unescape? c).map fun e => ⟨l.tokens, .quoted (.char e :: read)⟩
  | .code read digits unit =>
    (Text.hexDigit? c).map fun d =>
      let unit := 16 * unit + d
      if digits = 3 then ⟨l.tokens, .quoted (.code unit :: read)⟩
      else ⟨l.tokens, .code read (digits + 1) unit⟩

def finish (l : Lexer) : Option (List Token) :=
  match l.mode with
  | .between => some l.tokens.reverse
  | .run read => (Token.ofRun? read.reverse).map fun t => (t :: l.tokens).reverse
  | _ => none

end Lexer

def Token.ofChars? (cs : List Char) : Option (List Token) :=
  (cs.foldlM Lexer.step Lexer.start).bind Lexer.finish

end Linkage.Json
