import Linkage.Identifier
import Linkage.Server

namespace Linkage

open Json (Value Tree Field)

/-- A numeric parameter that is a 32-bit number, and positive unless zero is allowed. -/
structure Limit where
  name : String
  allowsZero : Bool
  deriving DecidableEq, Repr

namespace Limit

def maxDegrees : Limit := ⟨"maxDegrees", false⟩

def buildOut : Limit := ⟨"buildOut", true⟩

def maxEntities : Limit := ⟨"maxEntities", false⟩

def greatest : Nat := 4294967295

/-- The value, if it is in range. -/
def check (l : Limit) (value : Int64) : Except Fault Nat :=
  if l.allowsZero ∧ value < 0 then .error (.outOfRange l.name .nonNegative value)
  else if ¬l.allowsZero ∧ value < 1 then .error (.outOfRange l.name .positive value)
  else if (greatest : Int) < value.toInt then .error (.outOfRange l.name .thirtyTwoBit value)
  else .ok value.toInt.toNat

end Limit

def PathParams.defaultMaxDegrees : Int64 := 3

structure PathParams where
  origin : Option String := none
  target : Option String := none
  maxDegrees : Int64 := PathParams.defaultMaxDegrees
  avoid : List String := []
  forbidAvoided : Bool := false
  sources : List String := []
  withRaw : Bool := false
  deriving DecidableEq, Repr

namespace PathParams

def ofTree? (t : Tree) : Option PathParams := do
  let field ← t.fields?
    ["from", "to", "maxDegrees", "avoid", "forbidAvoided", "sources", "withRaw"]
  return {
    origin := ← (field "from").optional Tree.text?
    target := ← (field "to").optional Tree.text?
    maxDegrees := ← (field "maxDegrees").orElse defaultMaxDegrees Tree.int64?
    avoid := ← (field "avoid").orElse [] (Tree.list? Tree.text?)
    forbidAvoided := ← (field "forbidAvoided").orElse false Tree.bool?
    sources := ← (field "sources").orElse [] (Tree.list? Tree.text?)
    withRaw := ← (field "withRaw").orElse false Tree.bool? }

def value (p : PathParams) : Value :=
  .object [("from", .ofText? p.origin), ("to", .ofText? p.target),
    ("maxDegrees", .int p.maxDegrees.toInt), ("avoid", .array (p.avoid.map .text)),
    ("forbidAvoided", .bool p.forbidAvoided), ("sources", .array (p.sources.map .text)),
    ("withRaw", .bool p.withRaw)]

end PathParams

def NetworkParams.defaultMaxDegrees : Int64 := 5

/-- The steps from the paths of a network to further entities, unless given. -/
def NetworkParams.defaultBuildOut : Int64 := 1

/-- The number of entities beyond which a network is not built out, unless given. -/
def NetworkParams.defaultMaxEntities : Int64 := 1000

structure NetworkParams where
  entities : List String := []
  maxDegrees : Int64 := NetworkParams.defaultMaxDegrees
  buildOut : Int64 := NetworkParams.defaultBuildOut
  maxEntities : Int64 := NetworkParams.defaultMaxEntities
  withRaw : Bool := false
  deriving DecidableEq, Repr

namespace NetworkParams

def ofTree? (t : Tree) : Option NetworkParams := do
  let field ← t.fields? ["entities", "maxDegrees", "buildOut", "maxEntities", "withRaw"]
  return {
    entities := ← (field "entities").orElse [] (Tree.list? Tree.text?)
    maxDegrees := ← (field "maxDegrees").orElse defaultMaxDegrees Tree.int64?
    buildOut := ← (field "buildOut").orElse defaultBuildOut Tree.int64?
    maxEntities := ← (field "maxEntities").orElse defaultMaxEntities Tree.int64?
    withRaw := ← (field "withRaw").orElse false Tree.bool? }

def value (p : NetworkParams) : Value :=
  .object [("entities", .array (p.entities.map .text)), ("maxDegrees", .int p.maxDegrees.toInt),
    ("buildOut", .int p.buildOut.toInt), ("maxEntities", .int p.maxEntities.toInt),
    ("withRaw", .bool p.withRaw)]

end NetworkParams

def Identifier.ofParam (parameter text : String) : Except Fault Identifier :=
  match Identifier.parse? text with
  | some id => .ok id
  | none => .error (.malformedIdentifier parameter text)

/-- The identifiers that the values of a repeated parameter name, up to the first that names
none. -/
def Identifier.ofParams (parameter : String) (texts : List String) :
    Except Fault (List Identifier) :=
  texts.mapM (Identifier.ofParam parameter)

/-- A path query in which all is in order. -/
structure PathRequest where
  origin : Identifier
  target : Identifier
  maxDegrees : Nat
  avoid : Option (List Identifier)
  forbidAvoided : Bool
  sources : Option (List String)
  withRaw : Bool
  deriving DecidableEq, Repr

namespace PathRequest

def kind (r : PathRequest) : Kind := r.origin.kind

/-- A parameter that must not be blank, trimmed. -/
def requiredText (name : String) (value : Option String) : Except Fault String :=
  match value with
  | some text =>
    if Text.isBlankText text then .error (.missingParameter name) else .ok (Text.trim text)
  | none => .error (.missingParameter name)

def endpoint (name : String) (value : Option String) : Except Fault Identifier :=
  (requiredText name value).bind (Identifier.ofParam name)

/-- The avoided entities, named in the same way as the endpoints. -/
def avoided (origin target : Identifier) (texts : List String) :
    Except Fault (Option (List Identifier)) :=
  if texts.isEmpty then .ok none
  else do
    let ids ← Identifier.ofParams "x" texts
    if ids.all fun id => id.kind == origin.kind then return some ids
    else
      .error (.inconsistentIdentifiers "avoided entities"
        ((origin :: target :: ids).map Identifier.text))

/-- The set of required sources, all of them known to the server. -/
def requiredSources (server : Server) (texts : List String) :
    Except Fault (Option (List String)) :=
  if texts.isEmpty then .ok none
  else
    match (texts.map Text.trim).find? fun code => !server.knows code with
    | some code => .error (.unknownDataSource code)
    | none => .ok (some (Text.Sorted.ofList (texts.map Text.trim)))

def ofParams (server : Server) (p : PathParams) : Except Fault PathRequest := do
  let origin ← endpoint "from" p.origin
  let target ← endpoint "to" p.target
  if origin.kind ≠ target.kind then
    .error (.inconsistentIdentifiers "from and to" [origin.text, target.text])
  else
    let avoid ← avoided origin target p.avoid
    let sources ← requiredSources server p.sources
    let maxDegrees ← Limit.maxDegrees.check p.maxDegrees
    return ⟨origin, target, maxDegrees, avoid, p.forbidAvoided, sources, p.withRaw⟩

end PathRequest

/-- A network query in which all is in order. -/
structure NetworkRequest where
  entities : List Identifier
  maxDegrees : Nat
  buildOut : Nat
  maxEntities : Nat
  withRaw : Bool
  deriving DecidableEq, Repr

namespace NetworkRequest

/-- The kind of the members; none when there are no members. -/
def kind? (r : NetworkRequest) : Option Kind := r.entities.head?.map Identifier.kind

def ofParams (p : NetworkParams) : Except Fault NetworkRequest := do
  if p.entities.isEmpty then .error (.missingParameter "e")
  else
    let entities ← Identifier.ofParams "e" p.entities
    if Identifier.areConsistent entities then
      let maxDegrees ← Limit.maxDegrees.check p.maxDegrees
      let buildOut ← Limit.buildOut.check p.buildOut
      let maxEntities ← Limit.maxEntities.check p.maxEntities
      return ⟨entities, maxDegrees, buildOut, maxEntities, p.withRaw⟩
    else .error (.inconsistentIdentifiers "entities" (entities.map Identifier.text))

end NetworkRequest

end Linkage
