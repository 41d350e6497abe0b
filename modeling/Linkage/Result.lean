import Linkage.Document
import Linkage.Server

namespace Linkage

open Json (Value)

/-- The lists in which feature values are shown. -/
inductive DataGroup where
  | name
  | address
  | phone
  | identifier
  | characteristic
  | other
  deriving DecidableEq, Repr

namespace DataGroup

/-- The list for features of a class. Relationship features are not shown; any other class, or
none, goes to the list of other data. -/
def ofClass? : Option String → Option DataGroup
  | some "NAME" => some .name
  | some "ADDRESS" => some .address
  | some "PHONE" => some .phone
  | some "IDENTIFIER" => some .identifier
  | some "ATTRIBUTE" => some .characteristic
  | some "RELATIONSHIP" => none
  | _ => some .other

/-- Whether values of the list are shown with the name of their feature. -/
def namesFeature : DataGroup → Bool
  | .name => false
  | .address => false
  | .phone => false
  | _ => true

/-- A feature value as shown in the list. -/
def line (g : DataGroup) (feature : String) (f : Feature) : String :=
  match f.usage, g.namesFeature with
  | some usage, false => usage ++ ": " ++ f.text
  | some usage, true => usage ++ " " ++ feature ++ ": " ++ f.text
  | none, true => feature ++ ": " ++ f.text
  | none, false => f.text

end DataGroup

/-- An empty usage counts as none. -/
def Feature.normal (f : Feature) : Feature :=
  { f with usage := f.usage.filter fun usage => usage != "" }

/-- The values of a list, by feature. -/
def Features.shown (server : Server) (features : Features) (g : DataGroup) : List String :=
  features.entries.flatMap fun (feature, values) =>
    if DataGroup.ofClass? (server.classOf? feature) = some g then values.map (g.line feature)
    else []

/-- An entity with its features, and their values in lists. -/
structure EntityProfile where
  id : Int64
  name : Option String
  records : List Record
  features : Features
  nameData : List String
  addressData : List String
  phoneData : List String
  identifierData : List String
  characteristicData : List String
  otherData : List String
  deriving DecidableEq, Repr

namespace EntityProfile

/-- Sorts the feature values of an entity into lists. -/
def ofResolved (server : Server) (e : Resolved) : EntityProfile :=
  let features : Features := e.features.map fun values => values.map Feature.normal
  { id := e.id
    name := e.name
    records := e.records
    features := features
    nameData := Features.shown server features .name
    addressData := Features.shown server features .address
    phoneData := Features.shown server features .phone
    identifierData := Features.shown server features .identifier
    characteristicData := Features.shown server features .characteristic
    otherData := Features.shown server features .other }

end EntityProfile

structure EntityEntry where
  resolved : EntityProfile
  related : List Related
  deriving DecidableEq, Repr

namespace EntityEntry

def ofDocumentEntity (server : Server) (e : DocumentEntity) : EntityEntry :=
  ⟨EntityProfile.ofResolved server e.resolved, e.related⟩

def id (e : EntityEntry) : Int64 := e.resolved.id

end EntityEntry

/-- The relationship between two entities next to each other on a path. -/
structure Hop where
  origin : Int64
  target : Int64
  matchLevel : Int32
  matchKey : Option String
  deriving DecidableEq, Repr

/-- A path with the entities of its document, those on the path first. -/
structure PathResult where
  path : EntityPath
  entities : List EntityEntry
  hops : List Hop
  deriving DecidableEq, Repr

namespace PathResult

def found (r : PathResult) : Bool := !r.path.entities.isEmpty

/-- The last place of an entity on a path; the length of the path for one that is not on it. -/
def place (ids : List Int64) (id : Int64) : Nat :=
  ((ids.zipIdx.filter fun p => p.1 == id).getLast?.map (·.2)).getD ids.length

/-- Entities by their places on a path, in document order where these are equal. -/
def inPathOrder (ids : List Int64) (entities : List EntityEntry) : List EntityEntry :=
  entities.mergeSort fun a b => decide (place ids a.id ≤ place ids b.id)

/-- The hop from one entity to another, as the first tells it; without level and key when it
does not. -/
def hop (entities : List EntityEntry) (origin target : Int64) : Hop :=
  let teller? := (entities.filter fun (e : EntityEntry) => e.id == origin).getLast?
  match teller?.bind fun e => e.related.find? fun r => r.id == target with
  | some r => ⟨origin, target, r.matchLevel, r.matchKey⟩
  | none => ⟨origin, target, 0, none⟩

def hopsAlong (entities : List EntityEntry) (ids : List Int64) : List Hop :=
  (ids.zip ids.tail).map fun pair => hop entities pair.1 pair.2

/-- The result that a document holds, if it has a path. -/
def ofDocument? (server : Server) (d : Document) : Option PathResult :=
  d.paths.head?.map fun path =>
    let entities := inPathOrder path.entities (d.entities.map (EntityEntry.ofDocumentEntity server))
    ⟨path, entities, hopsAlong entities path.entities⟩

end PathResult

/-- Paths between the members of a network, and its entities. -/
structure NetworkResult where
  paths : List EntityPath
  entities : List EntityEntry
  limitReached : Bool
  deriving DecidableEq, Repr

def NetworkResult.ofDocument (server : Server) (d : Document) : NetworkResult :=
  ⟨d.paths, d.entities.map (EntityEntry.ofDocumentEntity server), d.limitReached.getD false⟩

def Document.read (raw : String) (wording : Json.Wording) : Except Fault Document :=
  match Document.ofText? raw with
  | some d => .ok d
  | none => .error (.unexpected ("Failed to parse engine result: " ++ wording .document raw))

def PathResult.read (server : Server) (raw : String) : Except Fault PathResult := do
  match PathResult.ofDocument? server (← Document.read raw server.wording) with
  | some r => .ok r
  | none => .error (.unexpected "Engine result has no entity path")

def NetworkResult.read (server : Server) (raw : String) : Except Fault NetworkResult := do
  return NetworkResult.ofDocument server (← Document.read raw server.wording)

/-! ## As values -/

def Feature.value (f : Feature) : Value :=
  .object (("value", .text f.text) :: Value.member "usageType" f.usage)

def Related.value (e : Related) : Value :=
  .object ([("entityId", .int e.id.toInt)] ++ Value.member "entityName" e.name ++
    [("matchLevel", .int e.matchLevel.toInt)] ++ Value.member "matchKey" e.matchKey ++
    [("isDisclosed", .bool e.disclosed), ("isAmbiguous", .bool e.ambiguous)])

def EntityProfile.value (e : EntityProfile) : Value :=
  .object ([("entityId", .int e.id.toInt)] ++ Value.member "entityName" e.name ++
    [("records", .array (e.records.map Record.value)),
     ("features", .object (e.features.entries.map fun f => (f.1, .array (f.2.map Feature.value)))),
     ("nameData", .array (e.nameData.map .text)),
     ("addressData", .array (e.addressData.map .text)),
     ("phoneData", .array (e.phoneData.map .text)),
     ("identifierData", .array (e.identifierData.map .text)),
     ("characteristicData", .array (e.characteristicData.map .text)),
     ("otherData", .array (e.otherData.map .text))])

def EntityEntry.value (e : EntityEntry) : Value :=
  .object [("resolvedEntity", e.resolved.value),
    ("relatedEntities", .array (e.related.map Related.value))]

def EntityPath.value (p : EntityPath) : Value :=
  .object [("startEntityId", .int p.origin.toInt), ("endEntityId", .int p.target.toInt),
    ("entityIds", .array (p.entities.map fun id => .int id.toInt))]

def Hop.value (l : Hop) : Value :=
  .object ([("fromEntityId", .int l.origin.toInt), ("toEntityId", .int l.target.toInt),
    ("matchLevel", .int l.matchLevel.toInt)] ++ Value.member "matchKey" l.matchKey)

def PathResult.value (r : PathResult) : Value :=
  .object [("entityPath", r.path.value), ("pathFound", .bool r.found),
    ("entities", .array (r.entities.map EntityEntry.value)),
    ("links", .array (r.hops.map Hop.value))]

def NetworkResult.value (r : NetworkResult) : Value :=
  .object [("entityPaths", .array (r.paths.map EntityPath.value)),
    ("entities", .array (r.entities.map EntityEntry.value)),
    ("maxEntityLimitReached", .bool r.limitReached)]

end Linkage
