import Linkage.Result
import Linkage.Timers

/-!
Responses to clients. An engine document that is passed through stands in a response as the engine
wrote it.
-/

namespace Linkage

open Json (Value Tree)

inductive HttpMethod where
  | get
  | post
  | put
  | delete
  deriving DecidableEq, Repr

def HttpMethod.text : HttpMethod → String
  | .get => "GET"
  | .post => "POST"
  | .put => "PUT"
  | .delete => "DELETE"

/-- What a response tells about its request. -/
structure ResponseInfo where
  method : HttpMethod
  status : Nat
  timestamp : Timestamp
  native : Option NativeInfo
  timers : Timers
  deriving DecidableEq, Repr

namespace ResponseInfo

def timingsValue (timings : Timings) : Value :=
  .object (timings.map fun t => (t.1, .int t.2))

/-- Metadata as a value, with the elapsed times read now unless they were read before. The
engine's versions stand beside the other members; elapsed times are left out when there are
none. -/
def value (m : ResponseInfo) (now : Nat) : Value :=
  .object ([("httpMethod", .text m.method.text), ("httpStatusCode", .int m.status),
    ("timestamp", .text m.timestamp.text), ("version", .text serverVersion),
    ("restApiVersion", .text restApiVersion)] ++
    (m.native.map NativeInfo.members).getD [] ++
    match m.timers.timings? now with
    | some timings => [("timings", timingsValue timings)]
    | none => [])

end ResponseInfo

/-- A response with data or with a fault, and a link to itself. -/
inductive Response (α : Type) where
  | success (data : α) (link : String) (info : ResponseInfo) (rawData : Option String)
  | failure (fault : Fault) (link : String) (info : ResponseInfo)

def linksValue (link : String) : Value := .object [("self", .text link)]

def Fault.value (f : Fault) : Value :=
  .object ((match f.engineCode? with
    | some code => [("code", .int code.toInt)]
    | none => []) ++ [("message", .text f.message)])

namespace Response

variable {α β : Type}

def status : Response α → Nat
  | .success _ _ info _ => info.status
  | .failure _ _ info => info.status

def fault? : Response α → Option Fault
  | .success _ _ _ _ => none
  | .failure fault _ _ => some fault

/-- The engine's document, if it is passed through. -/
def rawData? : Response α → Option String
  | .success _ _ _ raw => raw
  | .failure _ _ _ => none

def map (f : α → β) : Response α → Response β
  | .success data link info raw => .success (f data) link info raw
  | .failure fault link info => .failure fault link info

/-- The members, except for a document that is passed through. -/
def members (r : Response Value) (now : Nat) : List (String × Value) :=
  match r with
  | .success data link info _ =>
    [("data", data), ("links", linksValue link), ("meta", info.value now)]
  | .failure fault link info =>
    [("links", linksValue link), ("meta", info.value now), ("errors", .array [fault.value])]

def rawMember (r : Response Value) : List (String × String) :=
  match r.rawData? with
  | some raw => [("rawData", raw)]
  | none => []

def compact (r : Response Value) (now : Nat) : String :=
  Json.Printer.compactObject ((r.members now).map (fun m => (m.1, m.2.compact)) ++ r.rawMember)

def pretty (r : Response Value) (now : Nat) : String :=
  Json.Printer.prettyObject 0 ((r.members now).map (fun m => (m.1, m.2.pretty 1)) ++ r.rawMember)

def ofFault (method : HttpMethod) (fault : Fault) (link : String) (timers : Timers)
    (native : Option NativeInfo) (timestamp : Timestamp) : Response α :=
  .failure fault link ⟨method, fault.status, timestamp, native, timers⟩

end Response

/-- An engine document for passing through: a JSON text without the spaces around it. -/
def passThrough (raw : String) (wording : Json.Wording := .plain) : Except Fault String :=
  match Tree.ofText? raw with
  | some _ =>
    let front := raw.toList.dropWhile Json.Token.isSpace
    .ok (String.ofList (front.reverse.dropWhile Json.Token.isSpace).reverse)
  | none => .error (.notJson (wording .anything raw))

end Linkage
