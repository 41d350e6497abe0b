import Linkage.Call

namespace Linkage

/-- The status of a call, the text in the buffer, and the engine's last code and diagnostic. -/
structure Reply where
  status : Int32
  buffer : String
  code : Int32
  diagnostic : String
  deriving DecidableEq, Repr

/-- A result, or a call together with what follows its reply. -/
inductive Exchange (α : Type) where
  | settled (a : α)
  | asking (call : Call) (resume : Reply → α)

namespace Exchange

variable {α β : Type}

def map (f : α → β) : Exchange α → Exchange β
  | .settled a => .settled (f a)
  | .asking call resume => .asking call fun reply => f (resume reply)

def run (engine : Call → Reply) : Exchange α → α
  | .settled a => a
  | .asking call resume => resume (engine call)

def calls : Exchange α → List Call
  | .settled _ => []
  | .asking call _ => [call]

end Exchange

/-- A computation that runs stopwatches and may fail; those it started stay as they are then. -/
abbrev Timed (α : Type) := ExceptT Fault (StateM Timers) α

namespace Timed

def clock (f : Timers → Except TimerFault Timers) : Timed Unit := fun timers =>
  match f timers with
  | .ok after => (.ok (), after)
  | .error fault => (.error (.timer fault), timers)

def lift {α : Type} (x : Except Fault α) : Timed α := fun timers => (x, timers)

/-- A timed preparation of a call, and a timed treatment of the reply. -/
def exchange {α : Type} (prepare : Timed Call) (finish : Reply → Timed α) (timers : Timers) :
    Exchange (Except Fault α × Timers) :=
  match prepare timers with
  | (.ok call, after) => .asking call fun reply => finish reply after
  | (.error fault, after) => .settled (.error fault, after)

end Timed

/-- The stopwatch of all engine calls. -/
def callTimer : String := "nativeApi"

def namedTimer (name : String) : String := callTimer ++ ":" ++ name

namespace Reply

/-- The engine's document, unless the call failed. -/
def document (r : Reply) : Except Fault String :=
  if r.status = 0 then .ok r.buffer else .error (.engineFailure r.code r.diagnostic)

end Reply

def beginCall (now : Nat) (name : String) : Timed Unit := do
  Timed.clock fun t => t.start now callTimer
  Timed.clock fun t => t.start now (namedTimer name)

/-- Stops the stopwatches of a call and takes its document. -/
def endCall (now : Nat) (name : String) (reply : Reply) : Timed String := do
  Timed.clock fun t => t.stop now (namedTimer name)
  Timed.clock fun t => t.stop now callTimer
  Timed.lift reply.document

namespace PathRequest

def prepare (r : PathRequest) (now : Nat) : Timed Call := do
  beginCall now r.callName
  Timed.lift r.call

def exchange (r : PathRequest) (now : Nat) : Timers → Exchange (Except Fault String × Timers) :=
  Timed.exchange (r.prepare now) (endCall now r.callName)

end PathRequest

namespace NetworkRequest

def prepare (r : NetworkRequest) (now : Nat) : Timed Call :=
  match r.call? with
  | none => Timed.lift (.error (.unexpected "entity network requested without members"))
  | some call => do
    beginCall now call.name
    return call

def callName (r : NetworkRequest) : String := (r.kind?.map Call.networkName).getD ""

def exchange (r : NetworkRequest) (now : Nat) :
    Timers → Exchange (Except Fault String × Timers) :=
  Timed.exchange (r.prepare now) (endCall now r.callName)

end NetworkRequest

end Linkage
