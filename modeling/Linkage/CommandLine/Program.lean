import Linkage.CommandLine.Command
import Linkage.CommandLine.Files
import Linkage.Config
import Linkage.Engine
import Linkage.Service

namespace Linkage.CommandLine

open Json (Value)

inductive Failure where
  | misuse
  | unusableConfig (fault : FileFault)
  | invalidConfig (path : String)
  | configThere (path : String)
  | noFixture
  | badFixture (path : String) (fault : EngineFault)
  | query (fault : Fault)
  deriving DecidableEq, Repr

namespace Failure

def message : Failure → String
  | .misuse => "arguments not understood; see pathnet --help"
  | .unusableConfig fault => fault.message
  | .invalidConfig path => "Invalid config file " ++ path ++ ": not a configuration"
  | .configThere path =>
    "Config file already exists at " ++ path ++ ". Use --force to overwrite."
  | .noFixture => "No graph fixture configured; pass --fixture or set [engine] fixture"
  | .badFixture path _ => "Failed to load fixture " ++ path
  | .query fault => fault.message

/-- What an engine's fault is due to, if it was passed on. -/
def origin? : EngineFault → Option String
  | .notJson reason => some reason
  | .unreadable reason => some reason
  | _ => none

/-- What a failure is due to, outermost first. -/
def causes : Failure → List String
  | .badFixture _ fault => fault.message :: (origin? fault).toList
  | _ => []

/-- A cause within a report: its lines are indented, and it is numbered if there are others. -/
def causeText (number : Option Nat) (cause : String) : String :=
  let (front, indent) : String × String := match number with
    | some n => ("    " ++ Text.decimal n ++ ": ", "       ")
    | none => ("    ", "    ")
  let lines := (Text.splitAtEach '\n' cause.toList).map String.ofList
  front ++ ("\n" ++ indent).intercalate lines

def report (f : Failure) : String :=
  "Error: " ++ f.message ++ "\n" ++
    match f.causes with
    | [] => ""
    | [cause] => "\nCaused by:\n" ++ causeText none cause ++ "\n"
    | causes =>
      "\nCaused by:\n" ++
        String.join (causes.zipIdx.map fun c => causeText (some c.2) c.1 ++ "\n")

def code : Failure → Nat
  | .misuse => 2
  | _ => 1

end Failure

/-- What is printed: a text, or the response to a query with the instant at which its elapsed times
are read. -/
inductive Output where
  | plain (s : String)
  | response (r : Response Value) (compact : Bool) (now : Nat)

def Output.text : Output → String
  | .plain s => s
  | .response r compact now => (if compact then r.compact now else r.pretty now) ++ "\n"

/-- What a run prints, and why it fails if it does. -/
structure Outcome where
  output : Output
  failure : Option Failure

namespace Outcome

def code (o : Outcome) : Nat := (o.failure.map Failure.code).getD 0

def report (o : Outcome) : String := (o.failure.map Failure.report).getD ""

/-- The outcome of printing. A response fails with the fault that it reports. -/
def ofOutput : Output → Outcome
  | .plain s => ⟨.plain s, none⟩
  | .response r compact now => ⟨.response r compact now, r.fault?.map Failure.query⟩

/-- The outcome of an attempt. Nothing is printed if it fails. -/
def ofAttempt : Except Failure Output → Outcome
  | .ok output => ofOutput output
  | .error failure => ⟨.plain "", some failure⟩

end Outcome

/-- The query of a command, as it is put to a server. -/
def PathQuery.ask (q : PathQuery) (server : Server) (now : Timestamp) (timers : Timers) :
    Exchange (Response Value) :=
  (Service.findPath server now q.params q.link timers).map (·.map PathResult.value)

/-- The query of a command, as it is put to a server. -/
def NetworkQuery.ask (q : NetworkQuery) (server : Server) (now : Timestamp) (timers : Timers) :
    Exchange (Response Value) :=
  (Service.findNetwork server now q.params q.link timers).map (·.map NetworkResult.value)

namespace Program

variable {m : Type → Type} [Monad m]

abbrev Attempt (m : Type → Type) := ExceptT Failure m

def within (folder path : String) : String :=
  if folder.toList.getLast? = some '/' then folder ++ path else folder ++ "/" ++ path

/-- The folder of configurations: that of a variable which holds a path from the root, else a
folder in the home folder, which another variable may name. -/
def configFolder (s : System m) : String :=
  match (s.environment "XDG_CONFIG_HOME").filter fun path => path.toList.head? == some '/' with
  | some path => path
  | none =>
    match (s.environment "HOME").filter (· != "") <|> s.accountHome with
    | some home => within home ".config"
    | none => "."

def configPath (s : System m) (i : Invocation) : String :=
  i.config.getD (within (configFolder s) "pathnet/config.toml")

/-- The configuration of a file; the defaults when there is no such file. -/
def loadConfig (s : System m) (path : String) : Attempt m Config := do
  if ← s.exists? path then
    match ← s.read path with
    | .error fault => throw (.unusableConfig fault)
    | .ok text =>
      match Config.ofText? text with
      | some c => return c
      | none => throw (.invalidConfig path)
  else return {}

def initConfig (s : System m) (path : String) (force : Bool) : Attempt m Output := do
  if (← s.exists? path) && !force then throw (.configThere path)
  else
    match ← s.save path (Config.text {}) with
    | .error fault => throw (.unusableConfig fault)
    | .ok () => return .plain ("Created config file at " ++ path ++ "\n")

/-- The configuration with the fixture that an invocation names. -/
def effectiveConfig (s : System m) (path : String) (i : Invocation) : Attempt m Config := do
  let c ← loadConfig s path
  return { c with fixture := i.fixture <|> c.fixture }

def loadGraph (s : System m) (path : String) : Attempt m Graph := do
  match ← s.read path with
  | .error fault => throw (.badFixture path (.unreadable fault.message))
  | .ok text =>
    match Graph.read text s.wording with
    | .ok g => return g
    | .error fault => throw (.badFixture path fault)

/-- What queries are answered with. -/
structure Setting where
  graph : Graph
  server : Server

def loadSetting (s : System m) (path : String) (i : Invocation) : Attempt m Setting := do
  let c ← effectiveConfig s path i
  match c.fixture with
  | none => throw .noFixture
  | some fixture =>
    let g ← loadGraph s fixture
    let loaded ← s.clock
    let server :=
      Server.make (g.sources ++ c.sources) c.features (some (Graph.nativeInfo loaded))
    return ⟨g, { server with wording := s.wording }⟩

/-- The stopwatch of a whole query. -/
def overallTimer : String := "overall"

def answer (s : System m) (setting : Setting) (compact : Bool)
    (query : Timestamp → Timers → Exchange (Response Value)) : Attempt m Output := do
  let now ← s.clock
  let response := (query now (Timers.started now.millis [overallTimer])).run fun c =>
    setting.graph.reply c setting.server.wording
  return .response response compact (← s.clock).millis

def attempt (s : System m) (i : Invocation) : Attempt m Output := do
  let path := configPath s i
  match i.command with
  | .showConfigPath => return .plain (path ++ "\n")
  | .showConfig =>
    let c ← effectiveConfig s path i
    return .plain ("# " ++ path ++ "\n" ++ c.text)
  | .initConfig force => initConfig s path force
  | .path q compact =>
    let setting ← loadSetting s path i
    answer s setting compact (q.ask setting.server)
  | .network q compact =>
    let setting ← loadSetting s path i
    answer s setting compact (q.ask setting.server)

def versionText : String := "pathnet " ++ serverVersion ++ "\n"

def helpText : String :=
  "Entity path and network queries over a resolution engine\n\n"
    ++ "Usage: pathnet [OPTIONS] path <FROM> <TO>\n"
    ++ "       pathnet [OPTIONS] network <ENTITIES>...\n"
    ++ "       pathnet [OPTIONS] config show|path|init\n"

def run (s : System m) (args : List String) : m Outcome :=
  match Invocation.ofArguments s.environment args with
  | .error .version => pure ⟨.plain versionText, none⟩
  | .error .help => pure ⟨.plain helpText, none⟩
  | .error .misuse => pure ⟨.plain "", some .misuse⟩
  | .ok i => do return Outcome.ofAttempt (← (attempt s i).run)

end Program

end Linkage.CommandLine
