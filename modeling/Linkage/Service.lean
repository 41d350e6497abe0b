import Linkage.Envelope
import Linkage.Exchange

/-!
Path and network queries: parameters are checked, the engine is asked once, and its document is
turned into a response.
-/

namespace Linkage.Service

variable {α : Type}

/-- The stopwatch of the work on an engine's document. -/
def processTimer : String := "processResults"

/-- Reads the data out of a document, and keeps the document if it is to be passed through. -/
def process (server : Server) (now : Nat) (read : String → Except Fault α) (withRaw : Bool)
    (document : Except Fault String) : Timed (α × Option String) := do
  let raw ← Timed.lift document
  Timed.clock fun t => t.start now processTimer
  let data ← Timed.lift (read raw)
  let kept ← Timed.lift (if withRaw then (passThrough raw server.wording).map some else .ok none)
  Timed.clock fun t => t.stop now processTimer
  return (data, kept)

def respond (server : Server) (now : Timestamp) (link : String) :
    Except Fault (α × Option String) × Timers → Response α
  | (.ok (data, raw), timers) => .success data link ⟨.get, 200, now, server.native, timers⟩ raw
  | (.error fault, timers) => Response.ofFault .get fault link timers server.native now

/-- The response once a request's call has been answered. -/
def answer (server : Server) (now : Timestamp) (link : String) (read : String → Except Fault α)
    (withRaw : Bool) (outcome : Except Fault String × Timers) : Response α :=
  respond server now link (process server now.millis read withRaw outcome.1 outcome.2)

/-- The shortest path between two entities. -/
def findPath (server : Server) (now : Timestamp) (params : PathParams) (link : String)
    (timers : Timers) : Exchange (Response PathResult) :=
  match PathRequest.ofParams server params with
  | .error fault => .settled (respond server now link (.error fault, timers))
  | .ok request =>
    (request.exchange now.millis timers).map
      (answer server now link (PathResult.read server) request.withRaw)

/-- The network around some entities. -/
def findNetwork (server : Server) (now : Timestamp) (params : NetworkParams) (link : String)
    (timers : Timers) : Exchange (Response NetworkResult) :=
  match NetworkRequest.ofParams params with
  | .error fault => .settled (respond server now link (.error fault, timers))
  | .ok request =>
    (request.exchange now.millis timers).map
      (answer server now link (NetworkResult.read server) request.withRaw)

end Linkage.Service
