import Linkage.Identifier

namespace Linkage

open Json (Value Tree Field)

/-- A value of a feature, and what it is used for. -/
structure Feature where
  text : String
  usage : Option String
  deriving DecidableEq, Repr

/-- The values of each feature, by the feature's name. -/
abbrev Features := Text.Table (List Feature)

/-- An entity with its records and features. -/
structure Entity where
  id : Int64
  name : Option String
  records : List Record
  features : Features
  deriving DecidableEq, Repr

/-- What joins two entities; neither comes before the other. -/
structure Relationship where
  left : Int64
  right : Int64
  matchLevel : Int32
  matchKey : Option String
  disclosed : Bool
  ambiguous : Bool
  deriving DecidableEq, Repr

/-- A graph as given. The listed data sources are known besides those of the records. -/
structure Fixture where
  sources : List String
  entities : List Entity
  relationships : List Relationship
  deriving DecidableEq, Repr

/-! ## Fixtures as JSON -/

def Feature.fixtureValue (f : Feature) : Value :=
  .object (("value", .text f.text) ::
    match f.usage with
    | some usage => [("usageType", .text usage)]
    | none => [])

def Feature.ofTree? (t : Tree) : Option Feature := do
  let field ← t.fields? ["value", "usageType"]
  return ⟨← (field "value").required Tree.text?,
    ← (field "usageType").orElse none (Tree.nullable? Tree.text?)⟩

namespace Entity

def value (e : Entity) : Value :=
  .object [("entityId", .int e.id.toInt), ("entityName", .ofText? e.name),
    ("records", .array (e.records.map Record.value)),
    ("features", .object (e.features.entries.map fun f =>
      (f.1, .array (f.2.map Feature.fixtureValue))))]

def ofTree? (t : Tree) : Option Entity := do
  let field ← t.fields? ["entityId", "entityName", "records", "features"]
  return ⟨← (field "entityId").required Tree.int64?,
    ← (field "entityName").orElse none (Tree.nullable? Tree.text?),
    ← (field "records").orElse [] (Tree.list? Record.ofTree?),
    ← (field "features").orElse .empty (Tree.tableOf? (Tree.list? Feature.ofTree?))⟩

end Entity

namespace Relationship

def value (r : Relationship) : Value :=
  .object [("from", .int r.left.toInt), ("to", .int r.right.toInt),
    ("matchLevel", .int r.matchLevel.toInt), ("matchKey", .ofText? r.matchKey),
    ("disclosed", .bool r.disclosed), ("ambiguous", .bool r.ambiguous)]

def ofTree? (t : Tree) : Option Relationship := do
  let field ← t.fields? ["from", "to", "matchLevel", "matchKey", "disclosed", "ambiguous"]
  return ⟨← (field "from").required Tree.int64?,
    ← (field "to").required Tree.int64?,
    ← (field "matchLevel").orElse 0 Tree.int32?,
    ← (field "matchKey").orElse none (Tree.nullable? Tree.text?),
    ← (field "disclosed").orElse false Tree.bool?,
    ← (field "ambiguous").orElse false Tree.bool?⟩

end Relationship

namespace Fixture

def value (f : Fixture) : Value :=
  .object [("dataSources", .array (f.sources.map .text)),
    ("entities", .array (f.entities.map Entity.value)),
    ("relationships", .array (f.relationships.map Relationship.value))]

def ofTree? (t : Tree) : Option Fixture := do
  let field ← t.fields? ["dataSources", "entities", "relationships"]
  return ⟨← (field "dataSources").orElse [] (Tree.list? Tree.text?),
    ← (field "entities").orElse [] (Tree.list? Entity.ofTree?),
    ← (field "relationships").orElse [] (Tree.list? Relationship.ofTree?)⟩

end Fixture

/-! ## Checks -/

/-- Why a fixture is no graph. -/
inductive FixtureFault where
  | repeatedEntity (id : Int64)
  | sharedRecord (r : Record) (first second : Int64)
  | unknownEnd (left right missing : Int64)
  | selfRelated (id : Int64)
  deriving DecidableEq, Repr

def FixtureFault.message : FixtureFault → String
  | .repeatedEntity id => "duplicate entity " ++ Text.decimal id.toInt
  | .sharedRecord r first second =>
    "record " ++ r.dataSource ++ ":" ++ r.recordId ++ " belongs to entities "
      ++ Text.decimal first.toInt ++ " and " ++ Text.decimal second.toInt
  | .unknownEnd left right missing =>
    "relationship " ++ Text.decimal left.toInt ++ " -> " ++ Text.decimal right.toInt
      ++ " references unknown entity " ++ Text.decimal missing.toInt
  | .selfRelated id => "entity " ++ Text.decimal id.toInt ++ " is related to itself"

namespace Fixture

/-- Records with the entities that they belong to, latest first. -/
abbrev Owners := List (Record × Int64)

def owner? (owners : Owners) (r : Record) : Option Int64 :=
  (owners.find? fun o => o.1 == r).map (·.2)

/-- Adds the records of an entity; none may belong to one already. -/
def checkRecords (id : Int64) (owners : Owners) : List Record → Except FixtureFault Owners
  | [] => .ok owners
  | r :: rest =>
    match owner? owners r with
    | some first => .error (.sharedRecord r first id)
    | none => checkRecords id ((r, id) :: owners) rest

/-- Goes through the entities; `seen` are those passed. -/
def checkEntities (seen : List Int64) (owners : Owners) : List Entity → Except FixtureFault Unit
  | [] => .ok ()
  | e :: rest =>
    if e.id ∈ seen then .error (.repeatedEntity e.id)
    else
      match checkRecords e.id owners e.records with
      | .error fault => .error fault
      | .ok owners => checkEntities (e.id :: seen) owners rest

def ids (f : Fixture) : List Int64 := f.entities.map Entity.id

/-- Both ends are known, and they differ. -/
def checkRelationship (ids : List Int64) (r : Relationship) : Except FixtureFault Unit :=
  if r.left ∉ ids then .error (.unknownEnd r.left r.right r.left)
  else if r.right ∉ ids then .error (.unknownEnd r.left r.right r.right)
  else if r.left = r.right then .error (.selfRelated r.left)
  else .ok ()

def checkRelationships (ids : List Int64) : List Relationship → Except FixtureFault Unit
  | [] => .ok ()
  | r :: rest =>
    match checkRelationship ids r with
    | .error fault => .error fault
    | .ok () => checkRelationships ids rest

/-- The first fault of a fixture: entities and their records in order, then relationships. -/
def check (f : Fixture) : Except FixtureFault Unit :=
  match checkEntities [] [] f.entities with
  | .error fault => .error fault
  | .ok () => checkRelationships f.ids f.relationships

end Fixture

end Linkage
