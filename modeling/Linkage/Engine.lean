import Linkage.Exchange
import Linkage.Graph.Network
import Linkage.Server

namespace Linkage

inductive EngineFault where
  | invalidArgument (reason : String)
  | unknownRecord (r : Record)
  | unknownEntity (id : Int64)
  | invalidFixture (reason : String)
  | notJson (reason : String)
  | unreadable (reason : String)
  deriving DecidableEq, Repr

namespace EngineFault

def message : EngineFault → String
  | .invalidArgument reason => "Invalid JSON argument: " ++ reason
  | .unknownRecord r => "Unknown record: dsrc[" ++ r.dataSource ++ "], record[" ++ r.recordId ++ "]"
  | .unknownEntity id => "Unknown resolved entity value '" ++ Text.decimal id.toInt ++ "'"
  | .invalidFixture reason => "Invalid fixture: " ++ reason
  | .notJson reason => "Serialization error: " ++ reason
  | .unreadable reason => "IO error: " ++ reason

def code : EngineFault → Int32
  | .invalidArgument _ => 7
  | .unknownRecord _ => 33
  | .unknownEntity _ => 37
  | .invalidFixture _ => 2
  | .notJson _ => 2
  | .unreadable _ => 2

end EngineFault

def Fixture.read (text : String) (wording : Json.Wording) : Except EngineFault Fixture :=
  match (Json.Tree.ofText? text).bind Fixture.ofTree? with
  | some f => .ok f
  | none => .error (.notJson (wording .fixture text))

namespace Graph

def read (text : String) (wording : Json.Wording := .plain) : Except EngineFault Graph := do
  let fixture ← Fixture.read text wording
  match Graph.ofFixture fixture with
  | .ok g => .ok g
  | .error fault => .error (.invalidFixture fault.message)

/-- The versions that the engine reports; its build is the moment at which the graph was
loaded. -/
def nativeInfo (loaded : Timestamp) : NativeInfo :=
  ⟨serverVersion, serverVersion ++ "-memory", loaded.buildNumber, loaded, "1"⟩

def requireEntity (g : Graph) (id : Int64) : Except EngineFault Int64 :=
  match g.entity? id with
  | some _ => .ok id
  | none => .error (.unknownEntity id)

def requireRecord (g : Graph) (r : Record) : Except EngineFault Int64 :=
  match g.ownerOf? r with
  | some id => .ok id
  | none => .error (.unknownRecord r)

/-- All entities of a list, those named by number before those named by record. -/
def requireAll (g : Graph) (list : IdentifierList) : Except EngineFault (List Int64) := do
  let entities ← list.entities.mapM g.requireEntity
  let owners ← list.records.mapM g.requireRecord
  return entities ++ owners

/-- The list that an argument holds; `reason` says why there is none. -/
def argument {α : Type} (name reason : String) (list? : Option α) : Except EngineFault α :=
  match list? with
  | some list => .ok list
  | none => .error (.invalidArgument (name ++ ": " ++ reason))

/-- Both ends of a path, the first before the second. -/
def requireEnds (g : Graph) : Endpoints → Except EngineFault (Int64 × Int64)
  | .records a b => do return (← g.requireRecord a, ← g.requireRecord b)
  | .entities a b => do return (← g.requireEntity a, ← g.requireEntity b)

/-- The entities that a related entity is shown as. -/
def relatedEntities (g : Graph) (id : Int64) : List Related :=
  (g.relations id).map fun r =>
    { id := r.opposite id
      name := (g.entity? (r.opposite id)).bind Entity.name
      matchLevel := r.matchLevel
      matchKey := r.matchKey
      disclosed := r.disclosed
      ambiguous := r.ambiguous }

def documentEntity? (g : Graph) (id : Int64) : Option DocumentEntity :=
  (g.entity? id).map fun e => ⟨⟨id, e.name, e.features, e.records⟩, g.relatedEntities id⟩

/-- The filters of a path call: avoided entities, whether they are only to be avoided where
possible, and required sources. -/
structure PathRules where
  avoided : List Int64
  prefer : Bool
  required : Option (List String)
  deriving DecidableEq, Repr

/-- The lowest bit of the flags asks to avoid entities only where possible. -/
def prefersExclude (flags : Int64) : Bool := flags.toInt % 2 != 0

/-- The avoided entities that an argument lists. -/
def avoidedBy (g : Graph) (excluded : String) (wording : Json.Wording) :
    Except EngineFault (List Int64) := do
  g.requireAll
    (← argument "excluded" (wording .identifiers excluded) (IdentifierList.ofText? excluded))

def rules (g : Graph) (filter : PathFilter) (wording : Json.Wording) :
    Except EngineFault PathRules :=
  match filter with
  | .unfiltered => .ok ⟨[], false, none⟩
  | .excluding excluded flags => do
    return ⟨← g.avoidedBy excluded wording, prefersExclude flags, none⟩
  | .includingSource excluded sources flags => do
    let avoided ← g.avoidedBy excluded wording
    let required ←
      argument "required sources" (wording .sources sources) (SourceList.ofText? sources)
    return ⟨avoided, prefersExclude flags, some required⟩

/-- The path document between two entities: the path and its entities, or only the two ends. -/
def describePath (g : Graph) (origin target : Int64) (maxDegrees : Nat) (rules : PathRules) :
    Document :=
  let path :=
    (g.bestPath origin target maxDegrees rules.avoided rules.prefer rules.required).getD []
  let shown :=
    if path.isEmpty then (if target = origin then [origin] else [origin, target]) else path
  ⟨[⟨origin, target, path⟩], shown.filterMap g.documentEntity?, none⟩

def describeNetwork (g : Graph) (members : List Int64) (maxDegrees rounds limit : Nat) :
    Document :=
  let n := g.network members maxDegrees rounds limit
  ⟨n.paths, n.entities.filterMap g.documentEntity?, some n.limitReached⟩

def answer (g : Graph) (c : Call) (wording : Json.Wording) : Except EngineFault Document :=
  match c with
  | .path ends maxDegrees filter => do
    let (origin, target) ← g.requireEnds ends
    let rules ← g.rules filter wording
    return g.describePath origin target maxDegrees rules
  | .network _ members maxDegrees rounds limit => do
    let list ←
      argument "entity list" (wording .identifiers members) (IdentifierList.ofText? members)
    let ids ← g.requireAll list
    return g.describeNetwork ids maxDegrees rounds limit

end Graph

/-- The buffer that calls write to, and the fault of the last call. -/
structure Session where
  buffer : String
  lastFault : Option EngineFault
  deriving DecidableEq, Repr

namespace Session

def failed : Int32 := -2

/-- The code of the last fault; zero when there is none. -/
def code (s : Session) : Int32 := (s.lastFault.map EngineFault.code).getD 0

/-- The wording of the last fault; empty when there is none. -/
def diagnostic (s : Session) : String := (s.lastFault.map EngineFault.message).getD ""

def clear (s : Session) : Session := { s with buffer := "" }

def write (s : Session) (text : String) : Session := { s with buffer := s.buffer ++ text }

/-- Finishes a call: its status, and the session after it. The buffer is cleared first. -/
def complete (s : Session) : Except EngineFault Document → Int32 × Session
  | .ok document => (0, { s.clear with lastFault := none }.write document.text)
  | .error fault => (failed, { s.clear with lastFault := some fault })

def call (g : Graph) (s : Session) (c : Call) (wording : Json.Wording := .plain) :
    Int32 × Session :=
  s.complete (g.answer c wording)

end Session

/-- The reply of a graph to a call with an empty buffer. -/
def Graph.reply (g : Graph) (c : Call) (wording : Json.Wording := .plain) : Reply :=
  let (status, session) := Session.call g ⟨"", none⟩ c wording
  ⟨status, session.buffer, session.code, session.diagnostic⟩

end Linkage
