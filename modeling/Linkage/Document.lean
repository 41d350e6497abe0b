import Linkage.Fixture

namespace Linkage

open Json (Value Tree Field)

/-- The entities from one end to the other; empty when there is no path. -/
structure EntityPath where
  origin : Int64
  target : Int64
  entities : List Int64
  deriving DecidableEq, Repr

/-- An entity as an engine resolved it. -/
structure Resolved where
  id : Int64
  name : Option String
  features : Features
  records : List Record
  deriving DecidableEq, Repr

/-- An entity as another one is related to it. -/
structure Related where
  id : Int64
  name : Option String
  matchLevel : Int32
  matchKey : Option String
  disclosed : Bool
  ambiguous : Bool
  deriving DecidableEq, Repr

structure DocumentEntity where
  resolved : Resolved
  related : List Related
  deriving DecidableEq, Repr

/-- What an engine answers. A path document has no limit. -/
structure Document where
  paths : List EntityPath
  entities : List DocumentEntity
  limitReached : Option Bool
  deriving DecidableEq, Repr

/-- A member that is left out when there is no text. -/
def Json.Value.member (key : String) (s : Option String) : List (String × Value) :=
  match s with
  | some s => [(key, .text s)]
  | none => []

namespace EntityPath

def native (p : EntityPath) : Value :=
  .object [("START_ENTITY_ID", .int p.origin.toInt), ("END_ENTITY_ID", .int p.target.toInt),
    ("ENTITIES", .array (p.entities.map fun id => .int id.toInt))]

/-- Reads a path with the field names of the engine. -/
def ofNative? (t : Tree) : Option EntityPath := do
  let field ← t.fields? ["START_ENTITY_ID", "END_ENTITY_ID", "ENTITIES"]
  return ⟨← (field "START_ENTITY_ID").required Tree.int64?,
    ← (field "END_ENTITY_ID").required Tree.int64?,
    ← (field "ENTITIES").orElse [] (Tree.list? Tree.int64?)⟩

end EntityPath

namespace Feature

def native (f : Feature) : Value :=
  .object (("FEAT_DESC", .text f.text) :: Value.member "USAGE_TYPE" f.usage)

def ofNative? (t : Tree) : Option Feature := do
  let field ← t.fields? ["FEAT_DESC", "USAGE_TYPE"]
  return ⟨← (field "FEAT_DESC").required Tree.text?,
    ← (field "USAGE_TYPE").orElse none (Tree.nullable? Tree.text?)⟩

end Feature

namespace Resolved

def native (e : Resolved) : Value :=
  .object ([("ENTITY_ID", .int e.id.toInt)] ++ Value.member "ENTITY_NAME" e.name ++
    [("FEATURES", .object (e.features.entries.map fun f => (f.1, .array (f.2.map Feature.native)))),
     ("RECORDS", .array (e.records.map Record.native))])

def ofNative? (t : Tree) : Option Resolved := do
  let field ← t.fields? ["ENTITY_ID", "ENTITY_NAME", "FEATURES", "RECORDS"]
  return ⟨← (field "ENTITY_ID").required Tree.int64?,
    ← (field "ENTITY_NAME").orElse none (Tree.nullable? Tree.text?),
    ← (field "FEATURES").orElse .empty (Tree.tableOf? (Tree.list? Feature.ofNative?)),
    ← (field "RECORDS").orElse [] (Tree.list? Record.ofNative?)⟩

end Resolved

namespace Related

def flagValue (b : Bool) : Value := .int (if b then 1 else 0)

def native (e : Related) : Value :=
  .object ([("ENTITY_ID", .int e.id.toInt)] ++ Value.member "ENTITY_NAME" e.name ++
    [("MATCH_LEVEL", .int e.matchLevel.toInt)] ++ Value.member "MATCH_KEY" e.matchKey ++
    [("IS_DISCLOSED", flagValue e.disclosed), ("IS_AMBIGUOUS", flagValue e.ambiguous)])

def ofNative? (t : Tree) : Option Related := do
  let field ← t.fields?
    ["ENTITY_ID", "ENTITY_NAME", "MATCH_LEVEL", "MATCH_KEY", "IS_DISCLOSED", "IS_AMBIGUOUS"]
  return ⟨← (field "ENTITY_ID").required Tree.int64?,
    ← (field "ENTITY_NAME").orElse none (Tree.nullable? Tree.text?),
    ← (field "MATCH_LEVEL").orElse 0 Tree.int32?,
    ← (field "MATCH_KEY").orElse none (Tree.nullable? Tree.text?),
    ← (field "IS_DISCLOSED").orElse false Tree.flag?,
    ← (field "IS_AMBIGUOUS").orElse false Tree.flag?⟩

end Related

namespace DocumentEntity

def native (e : DocumentEntity) : Value :=
  .object [("RESOLVED_ENTITY", e.resolved.native),
    ("RELATED_ENTITIES", .array (e.related.map Related.native))]

def ofNative? (t : Tree) : Option DocumentEntity := do
  let field ← t.fields? ["RESOLVED_ENTITY", "RELATED_ENTITIES"]
  return ⟨← (field "RESOLVED_ENTITY").required Resolved.ofNative?,
    ← (field "RELATED_ENTITIES").orElse [] (Tree.list? Related.ofNative?)⟩

end DocumentEntity

namespace Document

def native (d : Document) : Value :=
  .object ([("ENTITY_PATHS", .array (d.paths.map EntityPath.native)),
    ("ENTITIES", .array (d.entities.map DocumentEntity.native))] ++
    match d.limitReached with
    | some b => [("MAX_ENTITY_LIMIT_REACHED", .bool b)]
    | none => [])

def ofNative? (t : Tree) : Option Document := do
  let field ← t.fields? ["ENTITY_PATHS", "ENTITIES", "MAX_ENTITY_LIMIT_REACHED"]
  return ⟨← (field "ENTITY_PATHS").orElse [] (Tree.list? EntityPath.ofNative?),
    ← (field "ENTITIES").orElse [] (Tree.list? DocumentEntity.ofNative?),
    ← (field "MAX_ENTITY_LIMIT_REACHED").orElse none (Tree.nullable? Tree.flag?)⟩

def text (d : Document) : String := d.native.compact

def ofText? (s : String) : Option Document := (Tree.ofText? s).bind ofNative?

end Document

end Linkage
