import Linkage.Json.Printer
import Linkage.Json.Shape
import Linkage.Text.Cutting

namespace Linkage

open Json (Value Tree Field)

structure Record where
  dataSource : String
  recordId : String
  deriving DecidableEq, Repr

inductive Kind where
  | record
  | entity
  deriving DecidableEq, Repr

/-- An entity, named by one of its records or by its number. -/
inductive Identifier where
  | record (r : Record)
  | entity (id : Int64)
  deriving DecidableEq, Repr

namespace Kind

def name : Kind → String
  | .record => "record"
  | .entity => "entity"

def named? (word : String) : Option Kind := [record, entity].find? fun kind => kind.name == word

@[simp] theorem named?_name (kind : Kind) : named? kind.name = some kind := by
  cases kind <;> rfl

/-- Reads a kind. It is written as its word, or as an object whose only member has the word as its
key and is null. -/
def ofTree? (t : Tree) : Option Kind :=
  match t.members? with
  | some [(word, .null)] => named? word
  | _ => t.text?.bind named?

end Kind

namespace Record

/-- Whether `SOURCE:RECORD` is read back as this record: both parts are nonempty and free of
blanks at their ends, and the source has no colon and cannot be taken for a JSON object. -/
def hasPlainForm (r : Record) : Bool :=
  r.dataSource != "" && !r.dataSource.toList.contains ':' &&
    r.dataSource.toList.head? != some '{' && Text.trim r.dataSource == r.dataSource &&
    r.recordId != "" && Text.trim r.recordId == r.recordId

/-- A record with the field names of requests and fixtures. -/
def value (r : Record) : Value :=
  .object [("dataSource", .text r.dataSource), ("recordId", .text r.recordId)]

def ofTree? (t : Tree) : Option Record := do
  let field ← t.fields? ["dataSource", "recordId"]
  return ⟨← (field "dataSource").required Tree.text?, ← (field "recordId").required Tree.text?⟩

/-- A record with the field names of the engine. -/
def native (r : Record) : Value :=
  .object [("DATA_SOURCE", .text r.dataSource), ("RECORD_ID", .text r.recordId)]

def ofNative? (t : Tree) : Option Record := do
  let field ← t.fields? ["DATA_SOURCE", "RECORD_ID"]
  return ⟨← (field "DATA_SOURCE").required Tree.text?, ← (field "RECORD_ID").required Tree.text?⟩

end Record

namespace Identifier

def kind : Identifier → Kind
  | .record _ => .record
  | .entity _ => .entity

def record? : Identifier → Option Record
  | .record r => some r
  | .entity _ => none

def entity? : Identifier → Option Int64
  | .record _ => none
  | .entity id => some id

/-- The keys under which an object may hold an entity number, in order of precedence. -/
def entityKeys : List String := ["ENTITY_ID", "entityId", "id"]

/-- The keys under which an object may hold a data source, in order of precedence. -/
def sourceKeys : List String := ["src", "dataSource", "DATA_SOURCE"]

/-- The keys under which an object may hold a record id, in order of precedence. -/
def recordKeys : List String := ["id", "recordId", "RECORD_ID"]

def lookup? (members : List (String × Value)) (key : String) : Option Value :=
  (members.find? fun m => m.1 == key).map (·.2)

/-- The entity number among the members of an object. The key `id` counts only if it is the only
member. -/
def entityIn? (members : List (String × Value)) : Option Int64 :=
  entityKeys.findSome? fun key =>
    match lookup? members key with
    | some (.number n) => if key = "id" ∧ members.length ≠ 1 then none else n.int64?
    | _ => none

/-- The first of some keys that holds a number or a text that is not blank. -/
def partIn? (members : List (String × Value)) (keys : List String) : Option String :=
  keys.findSome? fun key =>
    match lookup? members key with
    | some (.text s) => if Text.isBlankText s then none else some (Text.trim s)
    | some (.number n) => some n.text
    | _ => none

/-- The identifier that the members of an object name. -/
def ofMembers? (members : List (String × Value)) : Option Identifier :=
  match entityIn? members with
  | some id => some (.entity id)
  | none => do
    return .record ⟨← partIn? members sourceKeys, ← partIn? members recordKeys⟩

/-- The identifier that a JSON text names. -/
def ofJson? (text : String) : Option Identifier :=
  match Value.ofString? text with
  | some (.object members) => ofMembers? members
  | _ => none

/-- The record of a text split at its first colon; neither part may be blank. -/
def ofPair? (text : String) : Option Identifier :=
  match text.toList.dropWhile (· != ':') with
  | _ :: right =>
    let source := Text.trimChars (text.toList.takeWhile (· != ':'))
    let record := Text.trimChars right
    if source.isEmpty || record.isEmpty then none
    else some (.record ⟨String.ofList source, String.ofList record⟩)
  | [] => none

/-- The identifier that a text names, blanks around it aside. -/
def parse? (text : String) : Option Identifier :=
  let text := Text.trim text
  match Text.int64? text with
  | some id => some (.entity id)
  | none => if text.toList.head? = some '{' then ofJson? text else ofPair? text

/-- The number of an entity, or `SOURCE:RECORD`; a JSON object for a record whose plain form is
read back as something else. -/
def text : Identifier → String
  | .entity id => Text.decimal id.toInt
  | .record r =>
    if r.hasPlainForm then r.dataSource ++ ":" ++ r.recordId
    else Value.compact (.object [("id", .text r.recordId), ("src", .text r.dataSource)])

def native : Identifier → Value
  | .record r => r.native
  | .entity id => .object [("ENTITY_ID", .int id.toInt)]

def value : Identifier → Value
  | .record r =>
    .object [("kind", .text Kind.record.name), ("dataSource", .text r.dataSource),
      ("recordId", .text r.recordId)]
  | .entity id => .object [("kind", .text Kind.entity.name), ("id", .int id.toInt)]

/-- The kind of a tagged value, with the rest of it. The tag is the word for a kind; it is the
member `kind` of an object or the first item of an array. -/
def tagged? : Tree → Option (Kind × Tree)
  | .array (tag :: rest) => (tag.text?.bind Kind.named?).map fun kind => (kind, .array rest)
  | t => do
    let field ← t.fields? ["kind"]
    return (← Kind.named? (← (field "kind").required Tree.text?), t)

def ofTree? (t : Tree) : Option Identifier := do
  let (kind, body) ← tagged? t
  match kind with
  | .record => return .record (← Record.ofTree? body)
  | .entity =>
    let field ← body.fields? ["id"]
    return .entity (← (field "id").required Tree.int64?)

def areConsistent : List Identifier → Bool
  | [] => true
  | first :: rest => rest.all fun id => id.kind == first.kind

end Identifier

end Linkage
