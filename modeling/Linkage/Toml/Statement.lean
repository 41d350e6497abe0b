import Linkage.Toml.Node
import Linkage.Toml.Scalar

/-!
The lines of a configuration text. A value may go over several lines only within an array or a
quoted text.
-/

namespace Linkage.Toml

inductive Statement where
  | pair (key : Key) (v : Value)
  | header (key : Key)
  | itemHeader (key : Key)

/-- What a value stands in: a line, an array, or a table that is written in one place, with what is
known of it so far, newest first. -/
inductive Frame where
  | line (key : Key)
  | array (items : List Value)
  | table (pairs : List (Key × Value)) (key : Key)

/-- What is expected next, inside the open frames, innermost first. Parts of a key are kept newest
first. -/
inductive Expectation where
  /-- The start of a line. -/
  | line
  /-- The key of a line, or the sign after it. -/
  | key (parts : List KeyPart)
  /-- What follows the first bracket of a line. -/
  | bracket
  /-- The key of a header. -/
  | header (ofItem : Bool) (parts : List KeyPart)
  /-- The second bracket at the end of a header. -/
  | closing (parts : List KeyPart)
  /-- A value. -/
  | value (frames : List Frame)
  /-- An item of an array, or its end. -/
  | item (items : List Value) (frames : List Frame)
  /-- The key of a table's entry, or the end of a table without entries. -/
  | member (pairs : List (Key × Value)) (parts : List KeyPart) (frames : List Frame)
  /-- What follows a value. -/
  | after (v : Value) (frames : List Frame)
  /-- Nothing more on this line. -/
  | ended

/-- The statements read so far, newest first, and what is expected next. -/
structure Builder where
  statements : List Statement
  expected : Expectation

namespace Builder

def start : Builder := ⟨[], .line⟩

/-- How many frames a value may stand in. -/
def frameLimit : Nat := 80

def extend? (parts : List KeyPart) (t : Token) : Option (List KeyPart) :=
  (KeyPart.ofToken? t).map fun more => more.reverse ++ parts

/-- The key of parts that are kept newest first. -/
def key? (parts : List KeyPart) : Option Key := Key.ofParts? parts.reverse

def begin? (frames : List Frame) : Token → Option Expectation
  | .run cs => (Scalar.ofRun? cs).map fun v => .after v frames
  | .quoted cs _ => some (.after (.text (String.ofList cs)) frames)
  | .beginArray => if frames.length < frameLimit then some (.item [] frames) else none
  | .beginTable => if frames.length < frameLimit then some (.member [] [] frames) else none
  | _ => none

/-- The token after a value in an array or a table. -/
def follow? (v : Value) : List Frame → Token → Option Expectation
  | .array items :: frames, .comma => some (.item (v :: items) frames)
  | .array items :: frames, .endArray => some (.after (.array (v :: items).reverse) frames)
  | .array items :: frames, .newline => some (.after v (.array items :: frames))
  | .table pairs key :: frames, .comma => some (.member ((key, v) :: pairs) [] frames)
  | .table pairs key :: frames, .endTable =>
    (Node.tableOfPairs? ((key, v) :: pairs).reverse).map fun t => .after t frames
  | _, _ => none

def closeHeader? (b : Builder) (ofItem : Bool) (parts : List KeyPart) : Option Builder :=
  (key? parts).map fun key =>
    ⟨(if ofItem then .itemHeader key else .header key) :: b.statements, .ended⟩

def stepHeader? (b : Builder) (ofItem : Bool) (parts : List KeyPart) (t : Token) :
    Option Builder :=
  match t with
  | .endArray =>
    if ofItem then some { b with expected := .closing parts } else b.closeHeader? false parts
  | t => (extend? parts t).map fun parts => { b with expected := .header ofItem parts }

/-- Takes one token. Blanks count only next to the outer brackets of a header. -/
def step (b : Builder) (t : Token) : Option Builder :=
  match b.expected, t with
  | .bracket, .blank => some { b with expected := .header false [] }
  | .bracket, .beginArray => some { b with expected := .header true [] }
  | .bracket, t => b.stepHeader? false [] t
  | .closing parts, .endArray => b.closeHeader? true parts
  | .closing _, _ => none
  | _, .blank => some b
  | .line, .newline => some b
  | .line, .beginArray => some { b with expected := .bracket }
  | .line, t => (extend? [] t).map fun parts => { b with expected := .key parts }
  | .key parts, .equals => (key? parts).map fun key => { b with expected := .value [.line key] }
  | .key parts, t => (extend? parts t).map fun parts => { b with expected := .key parts }
  | .header ofItem parts, t => b.stepHeader? ofItem parts t
  | .value frames, t => (begin? frames t).map fun e => { b with expected := e }
  | .item _ _, .newline => some b
  | .item items frames, .endArray =>
    some { b with expected := .after (.array items.reverse) frames }
  | .item items frames, t =>
    (begin? (.array items :: frames) t).map fun e => { b with expected := e }
  | .member pairs parts frames, .equals =>
    (key? parts).map fun key => { b with expected := .value (.table pairs key :: frames) }
  | .member [] [] frames, .endTable => some { b with expected := .after (.table []) frames }
  | .member pairs parts frames, t =>
    (extend? parts t).map fun parts => { b with expected := .member pairs parts frames }
  | .after v [.line key], .newline => some ⟨.pair key v :: b.statements, .line⟩
  | .after v frames, t => (follow? v frames t).map fun e => { b with expected := e }
  | .ended, .newline => some { b with expected := .line }
  | .ended, _ => none

/-- The statements, when the last line is complete. -/
def finish (b : Builder) : Option (List Statement) :=
  match b.expected with
  | .line => some b.statements.reverse
  | .ended => some b.statements.reverse
  | .after v [.line key] => some (.pair key v :: b.statements).reverse
  | _ => none

end Builder

def Statement.ofTokens? (ts : List Token) : Option (List Statement) :=
  (ts.foldlM Builder.step Builder.start).bind Builder.finish

/-! ## The table of a text -/

/-- The table so far, and the path to the table of the last header. -/
structure Draft where
  root : Entries
  current : List String

namespace Draft

def empty : Draft := ⟨[], []⟩

def add? (d : Draft) : Statement → Option Draft
  | .pair key v =>
    (Node.alter false (fun _ inner => Node.addPair key v inner) .header d.root d.current).map
      fun root => { d with root := root }
  | .header key =>
    (Node.alter false (Node.openTable key.last) .header d.root key.path).map
      fun root => ⟨root, key.names⟩
  | .itemHeader key =>
    (Node.alter false (Node.openItem key.last) .header d.root key.path).map
      fun root => ⟨root, key.names⟩

end Draft

def ofText? (s : String) : Option Value := do
  let statements ← Statement.ofTokens? (← Token.ofText? s)
  let draft ← statements.foldlM Draft.add? Draft.empty
  return .table (Node.finishEntries draft.root)

end Linkage.Toml
