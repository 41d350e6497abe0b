import Linkage.CommandLine.Options
import Linkage.Request
import Linkage.Text.Form

namespace Linkage.CommandLine

structure PathQuery where
  origin : String
  target : String
  maxDegrees : Int64 := PathParams.defaultMaxDegrees
  avoid : List String := []
  forbidAvoided : Bool := false
  sources : List String := []
  withRaw : Bool := false
  deriving DecidableEq, Repr

/-- A flag as a parameter: it is left out unless it is set. -/
def flagPair (name : String) (set : Bool) : List (String × String) :=
  if set then [(name, "true")] else []

def numberPair (name : String) (n : Int64) : String × String := (name, Text.decimal n.toInt)

namespace PathQuery

def params (q : PathQuery) : PathParams where
  origin := some q.origin
  target := some q.target
  maxDegrees := q.maxDegrees
  avoid := q.avoid
  forbidAvoided := q.forbidAvoided
  sources := q.sources
  withRaw := q.withRaw

def pairs (q : PathQuery) : List (String × String) :=
  [("from", q.origin), ("to", q.target), numberPair "maxDegrees" q.maxDegrees]
    ++ q.avoid.map (fun id => ("x", id)) ++ flagPair "forbidAvoided" q.forbidAvoided
    ++ q.sources.map (fun code => ("s", code)) ++ flagPair "withRaw" q.withRaw

/-- The link by which the server answers the same query. -/
def link (q : PathQuery) : String := "/entity-paths?" ++ Text.Form.encode q.pairs

end PathQuery

structure NetworkQuery where
  entities : List String
  maxDegrees : Int64 := NetworkParams.defaultMaxDegrees
  buildOut : Int64 := NetworkParams.defaultBuildOut
  maxEntities : Int64 := NetworkParams.defaultMaxEntities
  withRaw : Bool := false
  deriving DecidableEq, Repr

namespace NetworkQuery

def params (q : NetworkQuery) : NetworkParams where
  entities := q.entities
  maxDegrees := q.maxDegrees
  buildOut := q.buildOut
  maxEntities := q.maxEntities
  withRaw := q.withRaw

def pairs (q : NetworkQuery) : List (String × String) :=
  q.entities.map (fun id => ("e", id))
    ++ [numberPair "maxDegrees" q.maxDegrees, numberPair "buildOut" q.buildOut,
      numberPair "maxEntities" q.maxEntities]
    ++ flagPair "withRaw" q.withRaw

/-- The link by which the server answers the same query. -/
def link (q : NetworkQuery) : String := "/entity-networks?" ++ Text.Form.encode q.pairs

end NetworkQuery

inductive Command where
  | path (q : PathQuery) (compact : Bool)
  | network (q : NetworkQuery) (compact : Bool)
  | showConfig
  | showConfigPath
  | initConfig (force : Bool)
  deriving DecidableEq, Repr

/-- A command with the files that are named for it. -/
structure Invocation where
  config : Option String
  fixture : Option String
  command : Command
  deriving DecidableEq, Repr

namespace Invocation

def everywhere : List Choice :=
  [⟨"config", some 'c', .value .path⟩, ⟨"fixture", none, .value .path⟩,
   ⟨"verbose", some 'v', .count⟩, ⟨"quiet", some 'q', .flag⟩, ⟨"help", some 'h', .notice .help⟩]

def programLevel : Level :=
  ⟨⟨"version", some 'V', .notice .version⟩ :: everywhere, ["path", "network", "config", "help"],
    some 0⟩

def pathLevel : Level :=
  ⟨[⟨"max-degrees", none, .value .number⟩, ⟨"avoid", some 'x', .values .text⟩,
    ⟨"forbid-avoided", none, .flag⟩, ⟨"source", some 's', .values .text⟩,
    ⟨"with-raw", none, .flag⟩, ⟨"compact", none, .flag⟩] ++ everywhere, [], some 2⟩

def networkLevel : Level :=
  ⟨[⟨"max-degrees", none, .value .number⟩, ⟨"build-out", none, .value .number⟩,
    ⟨"max-entities", none, .value .number⟩, ⟨"with-raw", none, .flag⟩,
    ⟨"compact", none, .flag⟩] ++ everywhere, [], none⟩

def configLevel : Level := ⟨everywhere, ["show", "path", "init", "help"], some 0⟩

/-- The level of showing the configuration or its path. -/
def plainLevel : Level := ⟨everywhere, [], some 0⟩

def initLevel : Level := ⟨⟨"force", none, .flag⟩ :: everywhere, [], some 0⟩

/-- What becomes of asking for help on a subcommand, which is named from the program on. -/
def helpOn : List String → Halt
  | [] => .help
  | [name] => if programLevel.subcommands.contains name then .help else .misuse
  | ["config", name] => if configLevel.subcommands.contains name then .help else .misuse
  | _ => .misuse

def pathCommand (g : Given) : Except Halt Command :=
  match g.operands with
  | [origin, target] =>
    .ok (.path {
      origin := origin
      target := target
      maxDegrees := g.number "max-degrees" PathParams.defaultMaxDegrees
      avoid := g.values "avoid"
      forbidAvoided := g.has "forbid-avoided"
      sources := g.values "source"
      withRaw := g.has "with-raw" } (g.has "compact"))
  | _ => .error .misuse

def networkCommand (g : Given) : Except Halt Command :=
  if g.operands.isEmpty then .error .misuse
  else
    .ok (.network {
      entities := g.operands
      maxDegrees := g.number "max-degrees" NetworkParams.defaultMaxDegrees
      buildOut := g.number "build-out" NetworkParams.defaultBuildOut
      maxEntities := g.number "max-entities" NetworkParams.defaultMaxEntities
      withRaw := g.has "with-raw" } (g.has "compact"))

def readLevel (l : Level) (command : Given → Except Halt Command) (above : List Given)
    (args : List String) : Except Halt (List Given × Command) := do
  let given ← l.read args
  return (given :: above, ← command given)

def readConfig (above : List Given) (args : List String) : Except Halt (List Given × Command) := do
  let given ← configLevel.read args
  match given.subcommand with
  | some ("show", rest) => readLevel plainLevel (fun _ => .ok .showConfig) (given :: above) rest
  | some ("path", rest) => readLevel plainLevel (fun _ => .ok .showConfigPath) (given :: above) rest
  | some ("init", rest) =>
    readLevel initLevel (fun g => .ok (.initConfig (g.has "force"))) (given :: above) rest
  | some (_, topic) => .error (helpOn ("config" :: topic))
  | none => .error .misuse

/-- Reads all levels, the last one first. -/
def readLevels (args : List String) : Except Halt (List Given × Command) := do
  let given ← programLevel.read args
  match given.subcommand with
  | some ("path", rest) => readLevel pathLevel pathCommand [given] rest
  | some ("network", rest) => readLevel networkLevel networkCommand [given] rest
  | some ("config", rest) => readConfig [given] rest
  | some (_, topic) => .error (helpOn topic)
  | none => .error .misuse

/-- The value of an option of every level: that of the last level that gives it, else that of a
variable. A variable that some level has to fall back on may not be empty. -/
def setting (levels : List Given) (name : String) (fallback : Option String) :
    Except Halt (Option String) :=
  if fallback = some "" ∧ levels.any fun g => !g.has name then .error .misuse
  else
    match levels.findSome? fun g => g.value? name with
    | some value => .ok (some value)
    | none => .ok fallback

def ofArguments (environment : String → Option String) (args : List String) :
    Except Halt Invocation := do
  let (levels, command) ← readLevels args
  return ⟨← setting levels "config" (environment "PATHNET_CONFIG"),
    ← setting levels "fixture" (environment "PATHNET_FIXTURE"), command⟩

end Invocation

end Linkage.CommandLine
