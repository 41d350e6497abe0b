import Linkage.Http.Query
import Linkage.Service

namespace Linkage.Http

open Json (Value)

/-- A request without a body; its length may be announced all the same. -/
structure HttpRequest where
  method : String
  uri : String
  contentLength : Option Nat
  deriving DecidableEq, Repr

/-- What is sent in a response: a plain text, a JSON value, or the response to a query with the
instant at which its elapsed times are read. -/
inductive Body where
  | plain (s : String)
  | value (v : Value)
  | response (r : Response Value) (now : Nat)

def Body.text : Body → String
  | .plain s => s
  | .value v => v.compact
  | .response r now => r.compact now

/-- A response with the headers that matter to clients. -/
structure HttpResponse where
  status : Nat
  contentType : Option String
  allowOrigin : Option String
  body : Body

/-- A URI in parts: scheme and host if it has them, path and query. -/
structure Location where
  host : String
  path : String
  query : Option String
  deriving DecidableEq, Repr

namespace Location

/-- The characters of a scheme: letters and digits of ASCII and four marks. -/
def isSchemeChar (c : Char) : Bool :=
  c.isAlphanum || c == '+' || c == '-' || c == '.' || c == '~'

/-- A scheme as it is written back: that of the web in small letters, others as they are. -/
def regularScheme (scheme : List Char) : List Char :=
  let small := scheme.map Char.toLower
  if small = "http".toList ∨ small = "https".toList then small else scheme

def splitHost (cs : List Char) : List Char × List Char :=
  match cs.dropWhile isSchemeChar with
  | ':' :: '/' :: '/' :: rest =>
    let ends (c : Char) : Bool := c == '/' || c == '?'
    (regularScheme (cs.takeWhile isSchemeChar) ++ "://".toList ++ rest.takeWhile fun c => !ends c,
      rest.dropWhile fun c => !ends c)
  | _ => ([], cs)

/-- Takes a URI apart. A part after `#` is dropped, and no path after a host is the root. -/
def ofUri (uri : String) : Location :=
  let (host, rest) := splitHost (uri.toList.takeWhile (· != '#'))
  let path := rest.takeWhile (· != '?')
  let query := match rest.dropWhile (· != '?') with
    | _ :: query => some (String.ofList query)
    | [] => none
  ⟨String.ofList host, if path.isEmpty then "/" else String.ofList path, query⟩

def text (l : Location) : String :=
  l.host ++ l.path ++ match l.query with
    | some query => "?" ++ query
    | none => ""

end Location

inductive Route where
  | paths
  | networks
  | health
  deriving DecidableEq, Repr

def Route.ofPath? (path : String) : Option Route :=
  match path with
  | "/entity-paths" => some .paths
  | "/entity-networks" => some .networks
  | "/health" => some .health
  | _ => none

def HttpResponse.withoutBody (r : HttpResponse) : HttpResponse := { r with body := .plain "" }

/-- Work with an engine, and what is answered if the engine breaks down, by how that is told. -/
structure Handling where
  work : Exchange HttpResponse
  ifBroken : String → HttpResponse

def Handling.withoutBody (h : Handling) : Handling :=
  ⟨h.work.map HttpResponse.withoutBody, fun breakdown => (h.ifBroken breakdown).withoutBody⟩

namespace Router

/-- The longest body that is accepted. -/
def bodyLimit : Nat := 65536

def overallTimer : String := "overall"

/-- The stopwatch of the wait for a free worker. -/
def queueTimer : String := "enqueued"

def bare (status : Nat) : HttpResponse := ⟨status, none, some "*", .plain ""⟩

def json (status : Nat) (body : Body) : HttpResponse :=
  ⟨status, some "application/json", some "*", body⟩

def tooLong : HttpResponse :=
  ⟨413, some "text/plain; charset=utf-8", none, .plain "length limit exceeded"⟩

def healthy : HttpResponse :=
  json 200 (.value (.object
    [("server", .text "pathnet"), ("status", .text "ok"), ("version", .text serverVersion)]))

def written (now : Timestamp) (r : Response Value) : HttpResponse :=
  json r.status (.response r now.millis)

def settled (r : HttpResponse) : Handling := ⟨.settled r, fun _ => r⟩

def refuse (server : Server) (now : Timestamp) (link : String) (timers : Timers) (fault : Fault) :
    HttpResponse :=
  written now (Response.ofFault .get fault link timers server.native now)

/-- Waits for a worker and then runs a query on it. -/
def enqueue (server : Server) (now : Timestamp) (link : String) (timers : Timers)
    (query : Timers → Exchange (Response Value)) : Handling :=
  let waited : Except TimerFault Timers := do
    (← timers.start now.millis queueTimer).stop now.millis queueTimer
  match waited with
  | .error fault => settled (refuse server now link timers (.timer fault))
  | .ok timers =>
    ⟨(query timers).map (written now), fun breakdown =>
      refuse server now link timers (.unexpected ("worker failed: " ++ breakdown))⟩

def paths (server : Server) (now : Timestamp) (link : String) (query : Query) : Handling :=
  let timers := Timers.started now.millis [overallTimer]
  match query.pathParams with
  | .error fault => settled (refuse server now link timers fault)
  | .ok params =>
    enqueue server now link timers fun timers =>
      (Service.findPath server now params link timers).map fun r => r.map PathResult.value

def networks (server : Server) (now : Timestamp) (link : String) (query : Query) : Handling :=
  let timers := Timers.started now.millis [overallTimer]
  match query.networkParams with
  | .error fault => settled (refuse server now link timers fault)
  | .ok params =>
    enqueue server now link timers fun timers =>
      (Service.findNetwork server now params link timers).map fun r => r.map NetworkResult.value

/-- What a route answers to a reading request. -/
def visit (server : Server) (now : Timestamp) (link : String) (query : Query) : Route → Handling
  | .health => settled healthy
  | .paths => paths server now link query
  | .networks => networks server now link query

/-- The work that a request asks for at a place, if there is one, by its method. A body that is too
long is refused first, and preliminary questions are answered anywhere. -/
def dispatch (server : Server) (now : Timestamp) (request : HttpRequest) (location : Location)
    (route : Option Route) : Handling :=
  if bodyLimit < request.contentLength.getD 0 then settled tooLong
  else if request.method = "OPTIONS" then settled (bare 200)
  else
    match route with
    | none => settled (bare 404)
    | some route =>
      if request.method = "GET" ∨ request.method = "HEAD" then
        visit server now location.text (Query.parse location.query) route
      else settled (bare 405)

/-- The work that a request asks for. At the places that are known, `HEAD` leaves the body out of
every response. -/
def handle (server : Server) (now : Timestamp) (request : HttpRequest) : Handling :=
  let location := Location.ofUri request.uri
  let route := Route.ofPath? location.path
  let handling := dispatch server now request location route
  if request.method = "HEAD" ∧ route.isSome then handling.withoutBody else handling

/-- The response with an engine that replies, or breaks down. -/
def respond (server : Server) (now : Timestamp) (engine : Call → Option Reply)
    (request : HttpRequest) (breakdown : String := "the engine broke down") : HttpResponse :=
  let handling := handle server now request
  match handling.work with
  | .settled r => r
  | .asking call resume =>
    match engine call with
    | some reply => resume reply
    | none => handling.ifBroken breakdown

end Router

end Linkage.Http
