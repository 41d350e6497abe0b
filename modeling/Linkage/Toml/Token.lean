import Linkage.Text.Integer

/-!
The tokens of a configuration text.

There are two kinds of quoted texts, with and without escapes; each may be written on one line or,
between threefold marks, over several.
-/

namespace Linkage.Toml

inductive Token where
  | blank
  | newline
  | comma
  | equals
  | beginArray
  | endArray
  | beginTable
  | endTable
  | run (cs : List Char)
  | quoted (cs : List Char) (block : Bool)
  deriving DecidableEq, Repr

/-- The two kinds of quoted texts: in a basic one a backslash begins an escape, in a literal one it
stands for itself. -/
inductive Quotation where
  | basic
  | literal
  deriving DecidableEq, Repr

def Quotation.mark : Quotation → Char
  | .basic => '"'
  | .literal => '\''

namespace Token

def mark? : Char → Option Token
  | '\n' => some .newline
  | ' ' => some .blank
  | '\t' => some .blank
  | ',' => some .comma
  | '=' => some .equals
  | '[' => some .beginArray
  | ']' => some .endArray
  | '{' => some .beginTable
  | '}' => some .endTable
  | _ => none

end Token

/-- Where a lexer stands. What has been read is kept newest first. -/
inductive Mode where
  /-- Between tokens. -/
  | between
  /-- In a word. -/
  | run (read : List Char)
  /-- After a date and a space: a digit goes on with a time of day. -/
  | dated (read : List Char)
  /-- In a comment. -/
  | comment
  /-- After one mark, or two, of which it is not known yet what they begin. -/
  | opening (q : Quotation) (second : Bool)
  /-- After the three marks that begin a block; a line end here does not count. -/
  | fresh (q : Quotation)
  /-- In a quoted text on one line. -/
  | line (q : Quotation) (read : List Char)
  /-- In a block, after some marks that may be its end. -/
  | block (q : Quotation) (read : List Char) (marks : Nat)
  /-- After three marks in a block; up to two more marks belong to the text. -/
  | closing (q : Quotation) (read : List Char) (more : Nat)
  /-- After a backslash. -/
  | backslash (inBlock : Bool) (read : List Char)
  /-- In a code, some digits before its end. -/
  | code (inBlock : Bool) (read : List Char) (missing : Nat) (value : Nat)
  /-- In the blank space after a backslash, before or after the end of its line. -/
  | fold (read : List Char) (broken : Bool)
  deriving DecidableEq, Repr

/-- The tokens read so far, newest first, and where the lexer stands. -/
structure Lexer where
  tokens : List Token
  mode : Mode
  deriving DecidableEq, Repr

namespace Lexer

def start : Lexer := ⟨[], .between⟩

/-- Control characters other than the tab. -/
def isControl (c : Char) : Bool := (decide (c.toNat < 0x20) && c != '\t') || c.toNat == 0x7F

/-- A character that does not continue the token before it. -/
def begin (tokens : List Token) (c : Char) : Lexer :=
  if c = '#' then ⟨tokens, .comment⟩
  else if c = '"' then ⟨tokens, .opening .basic false⟩
  else if c = '\'' then ⟨tokens, .opening .literal false⟩
  else
    match Token.mark? c with
    | some mark => ⟨mark :: tokens, .between⟩
    | none => ⟨tokens, .run [c]⟩

/-- Marks, quotes and comments end a word. -/
def endsRun (c : Char) : Bool := c == '#' || c == '"' || c == '\'' || (Token.mark? c).isSome

/-- Ten characters in the form of a date. -/
def isDate : List Char → Bool
  | [a, b, c, d, '-', e, f, '-', g, h] => [a, b, c, d, e, f, g, h].all Char.isDigit
  | _ => false

def unescape? : Char → Option Char
  | 'b' => some '\x08'
  | 't' => some '\t'
  | 'n' => some '\n'
  | 'f' => some '\x0c'
  | 'r' => some '\r'
  | '"' => some '"'
  | '\\' => some '\\'
  | _ => none

/-- Goes on in a quoted text after an escape. -/
def resume (tokens : List Token) (inBlock : Bool) (read : List Char) : Lexer :=
  if inBlock then ⟨tokens, .block .basic read 0⟩ else ⟨tokens, .line .basic read⟩

/-- A character in a quoted text on one line. -/
def stepLine (tokens : List Token) (q : Quotation) (read : List Char) (c : Char) :
    Option Lexer :=
  if c = q.mark then some ⟨.quoted read.reverse false :: tokens, .between⟩
  else if c = '\\' ∧ q = .basic then some ⟨tokens, .backslash false read⟩
  else if isControl c then none
  else some ⟨tokens, .line q (c :: read)⟩

def stepBlock (tokens : List Token) (q : Quotation) (read : List Char) (marks : Nat) (c : Char) :
    Option Lexer :=
  if c = q.mark then
    if marks = 2 then some ⟨tokens, .closing q read 0⟩ else some ⟨tokens, .block q read (marks + 1)⟩
  else
    let read := List.replicate marks q.mark ++ read
    if c = '\\' ∧ q = .basic then some ⟨tokens, .backslash true read⟩
    else if isControl c ∧ c ≠ '\n' then none
    else some ⟨tokens, .block q (c :: read) 0⟩

def stepBackslash (tokens : List Token) (inBlock : Bool) (read : List Char) (c : Char) :
    Option Lexer :=
  if c = 'u' then some ⟨tokens, .code inBlock read 4 0⟩
  else if c = 'U' then some ⟨tokens, .code inBlock read 8 0⟩
  else
    match unescape? c with
    | some e => some (resume tokens inBlock (e :: read))
    | none =>
      if inBlock ∧ (c = ' ' ∨ c = '\t' ∨ c = '\n') then some ⟨tokens, .fold read (c = '\n')⟩
      else none

def stepCode (tokens : List Token) (inBlock : Bool) (read : List Char) (missing value : Nat)
    (c : Char) : Option Lexer := do
  let value := 16 * value + (← Text.hexDigit? c)
  if 1 < missing then return ⟨tokens, .code inBlock read (missing - 1) value⟩
  else if value.isValidChar then return resume tokens inBlock (Char.ofNat value :: read)
  else none

def blockToken (q : Quotation) (read : List Char) (more : Nat) : Token :=
  .quoted (List.replicate more q.mark ++ read).reverse true

def step (l : Lexer) (c : Char) : Option Lexer :=
  match l.mode with
  | .between => some (begin l.tokens c)
  | .run read =>
    if c = ' ' ∧ isDate read.reverse then some ⟨l.tokens, .dated read⟩
    else if endsRun c then some (begin (.run read.reverse :: l.tokens) c)
    else some ⟨l.tokens, .run (c :: read)⟩
  | .dated read =>
    if c.isDigit then some ⟨l.tokens, .run (c :: ' ' :: read)⟩
    else some (begin (.blank :: .run read.reverse :: l.tokens) c)
  | .comment =>
    if c = '\n' then some ⟨.newline :: l.tokens, .between⟩
    else if isControl c then none
    else some l
  | .opening q false =>
    if c = q.mark then some ⟨l.tokens, .opening q true⟩ else stepLine l.tokens q [] c
  | .opening q true =>
    if c = q.mark then some ⟨l.tokens, .fresh q⟩
    else some (begin (.quoted [] false :: l.tokens) c)
  | .fresh q =>
    if c = '\n' then some ⟨l.tokens, .block q [] 0⟩ else stepBlock l.tokens q [] 0 c
  | .line q read => stepLine l.tokens q read c
  | .block q read marks => stepBlock l.tokens q read marks c
  | .closing q read more =>
    if c = q.mark ∧ more < 2 then some ⟨l.tokens, .closing q read (more + 1)⟩
    else some (begin (blockToken q read more :: l.tokens) c)
  | .backslash inBlock read => stepBackslash l.tokens inBlock read c
  | .code inBlock read missing value => stepCode l.tokens inBlock read missing value c
  | .fold read broken =>
    if c = ' ' ∨ c = '\t' then some l
    else if c = '\n' then some ⟨l.tokens, .fold read true⟩
    else if broken then stepBlock l.tokens .basic read 0 c
    else none

def finish (l : Lexer) : Option (List Token) :=
  match l.mode with
  | .between => some l.tokens.reverse
  | .run read => some (.run read.reverse :: l.tokens).reverse
  | .dated read => some (.run read.reverse :: l.tokens).reverse
  | .comment => some l.tokens.reverse
  | .opening _ true => some (.quoted [] false :: l.tokens).reverse
  | .closing q read more => some (blockToken q read more :: l.tokens).reverse
  | _ => none

end Lexer

namespace Token

/-- Writes every line end as a single character. -/
def unifyLineEnds : List Char → List Char
  | '\r' :: '\n' :: rest => '\n' :: unifyLineEnds rest
  | c :: rest => c :: unifyLineEnds rest
  | [] => []

def withoutByteOrderMark : List Char → List Char
  | '\uFEFF' :: rest => rest
  | cs => cs

def ofText? (s : String) : Option (List Token) :=
  ((unifyLineEnds (withoutByteOrderMark s.toList)).foldlM Lexer.step Lexer.start).bind
    Lexer.finish

end Token

end Linkage.Toml
