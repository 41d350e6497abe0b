import Linkage.Proofs.Request.Checked
import Linkage.Proofs.Timers.Steps
import Linkage.Service

/-! The timed steps of a query. -/

namespace Linkage

namespace Timed

variable {α β : Type} {t after : Timers}

theorem bind_ok {x : Timed α} {f : α → Timed β} {a : α} (h : x t = (.ok a, after)) :
    (x >>= f) t = f a after := by
  change (match x t with | (a, s) => ExceptT.bindCont f a s) = _
  rw [h]
  rfl

theorem bind_error {x : Timed α} {f : α → Timed β} {fault : Fault}
    (h : x t = (.error fault, after)) : (x >>= f) t = (.error fault, after) := by
  change (match x t with | (a, s) => ExceptT.bindCont f a s) = _
  rw [h]
  rfl

theorem clock_ok {f : Timers → Except TimerFault Timers} (h : f t = .ok after) :
    clock f t = (.ok (), after) := by
  rw [clock, h]

theorem clock_error {f : Timers → Except TimerFault Timers} {fault : TimerFault}
    (h : f t = .error fault) : clock f t = (.error (.timer fault), t) := by
  rw [clock, h]

theorem lift_ok (a : α) (f : α → Timed β) : (lift (.ok a) >>= f) t = f a t := bind_ok rfl

theorem lift_error (fault : Fault) (f : α → Timed β) :
    (lift (.error fault) >>= f) t = (.error fault, t) := bind_error rfl

end Timed

theorem namedTimer_ne (name : String) : namedTimer name ≠ callTimer := by
  intro h
  have hlen := congrArg String.length h
  rw [namedTimer, String.length_append, String.length_append] at hlen
  have hcolon : (":" : String).length = 1 := rfl
  omega

variable {t : Timers}

/-- The stopwatches of a call start without fault. -/
theorem beginCall_open (hopen : t.isConcluded = false) (now : Nat) (name : String) :
    ∃ after, beginCall now name t = (.ok (), after) ∧
      after.state callTimer = .running ∧ after.state (namedTimer name) = .running ∧
      t.Grows [callTimer, namedTimer name] after := by
  obtain ⟨first, hfirst, hfirstOpen, hfirstState⟩ := Timers.start_open hopen now callTimer
  obtain ⟨second, hsecond, hsecondOpen, hsecondState⟩ :=
    Timers.start_open hfirstOpen now (namedTimer name)
  have hgrows := (Timers.Grows.start hfirstOpen hfirstState).trans
    (.start hsecondOpen hsecondState)
  refine ⟨second, ?_, ?_, ?_, hgrows⟩
  · rw [beginCall, Timed.bind_ok (Timed.clock_ok hfirst)]
    exact Timed.clock_ok hsecond
  · rw [hsecondState, if_neg (namedTimer_ne name), hfirstState, if_pos rfl]
  · rw [hsecondState, if_pos rfl]

theorem endCall_running {name : String} (hcall : t.state callTimer = .running)
    (hnamed : t.state (namedTimer name) = .running) (now : Nat) (reply : Reply) :
    ∃ after, endCall now name reply t = (reply.document, after) ∧ t.Grows [] after := by
  obtain ⟨first, hfirst, hfirstOpen, hfirstState⟩ := Timers.stop_running hnamed now
  have hstill : first.state callTimer = .running := by
    rw [hfirstState, if_neg (namedTimer_ne name), hcall]
  obtain ⟨second, hsecond, hsecondOpen, hsecondState⟩ := Timers.stop_running hstill now
  have hgrows := (Timers.Grows.stop hnamed hfirstOpen hfirstState).trans
    (.stop hstill hsecondOpen hsecondState)
  refine ⟨second, ?_, hgrows⟩
  rw [endCall, Timed.bind_ok (Timed.clock_ok hfirst), Timed.bind_ok (Timed.clock_ok hsecond)]
  rfl

/-- The stopwatches of a call. -/
def Call.timers (call : Call) : List String := [callTimer, namedTimer call.name]

/-- A conversation that makes one call and comes to the document of its reply. Beside the
stopwatches that were known before, those of the call are known then. -/
def Exchange.AsksFor (x : Exchange (Except Fault String × Timers)) (t : Timers) (call : Call) :
    Prop :=
  ∃ resume, x = .asking call resume ∧
    ∀ reply : Reply, ∃ after, resume reply = (reply.document, after) ∧ t.Grows call.timers after

/-- A call for which nothing but its stopwatches is prepared. -/
theorem exchange_asksFor {prepare : Timed Call} {call : Call} {name : String} {now : Nat}
    (hname : name = call.name)
    (hprepare : ∀ after, beginCall now name t = (.ok (), after) → prepare t = (.ok call, after))
    (hopen : t.isConcluded = false) :
    (Timed.exchange prepare (endCall now name) t).AsksFor t call := by
  obtain ⟨begun, hbegin, hcall, hnamed, hgrows⟩ := beginCall_open hopen now name
  refine ⟨fun reply => endCall now name reply begun, ?_, fun reply => ?_⟩
  · rw [Timed.exchange, hprepare begun hbegin]
  · obtain ⟨ended, hend, hgrows'⟩ := endCall_running hcall hnamed now reply
    refine ⟨ended, hend, ?_⟩
    rw [Call.timers, ← hname]
    exact hgrows.trans hgrows'

namespace PathRequest

variable {r : PathRequest}

/-- Both ends of a checked request are named in one way, and its call is made of them. -/
theorem Uniform.call_ok (h : r.Uniform) :
    ∃ ends, r.call = .ok (.path ends r.maxDegrees r.filter) ∧ ends.kind = r.kind ∧
      r.endpoints? = some ends := by
  have hkind := h.ends
  unfold call endpoints?
  unfold kind at hkind ⊢
  cases ho : r.origin <;> cases ht : r.target <;> rw [ho, ht] at hkind <;>
    first | exact ⟨_, rfl, rfl, rfl⟩ | cases hkind

theorem filter_variant (r : PathRequest) : r.filter.variant = r.variant := by
  unfold filter
  cases r.variant <;> rfl

theorem name_of_call {c : Call} (h : r.call = .ok c) : r.callName = c.name := by
  unfold call endpoints? at h
  rw [callName, kind]
  cases ho : r.origin <;> cases ht : r.target <;> rw [ho, ht] at h <;> cases h <;>
    rw [Call.name, filter_variant] <;> rfl

theorem exchange_asksFor {call : Call} (h : r.call = .ok call) (hopen : t.isConcluded = false)
    (now : Nat) : (r.exchange now t).AsksFor t call := by
  refine Linkage.exchange_asksFor (name_of_call h) (fun after hbegin => ?_) hopen
  rw [prepare, Timed.bind_ok hbegin, h]
  rfl

end PathRequest

theorem NetworkRequest.exchange_asksFor {r : NetworkRequest} {call : Call}
    (h : r.call? = some call) (hopen : t.isConcluded = false) (now : Nat) :
    (r.exchange now t).AsksFor t call := by
  obtain ⟨kind, hkind, hcall⟩ := Option.map_eq_some_iff.mp h
  have hname : r.callName = call.name := by
    rw [callName, hkind, ← hcall]
    rfl
  refine Linkage.exchange_asksFor hname (fun after hbegin => ?_) hopen
  rw [hname] at hbegin
  rw [prepare, h]
  exact Timed.bind_ok hbegin

/-! ## Once the reading has been taken -/

/-- What comes of a call that is begun too late. -/
def tooLate : Fault := .timer (.alreadyConcluded .start "nativeApi")

theorem beginCall_concluded (h : t.isConcluded = true) (now : Nat) (name : String) :
    beginCall now name t = (.error tooLate, t) :=
  Timed.bind_error (Timed.clock_error (Timers.start_concluded h now callTimer))

theorem PathRequest.exchange_concluded (h : t.isConcluded = true) (r : PathRequest) (now : Nat) :
    r.exchange now t = .settled (.error tooLate, t) := by
  rw [exchange, Timed.exchange, prepare, Timed.bind_error (beginCall_concluded h now _)]

theorem NetworkRequest.exchange_concluded (h : t.isConcluded = true) {r : NetworkRequest}
    {call : Call} (hcall : r.call? = some call) (now : Nat) :
    r.exchange now t = .settled (.error tooLate, t) := by
  rw [exchange, Timed.exchange, prepare, hcall]
  simp only [Timed.bind_error (beginCall_concluded h now call.name)]

/-! ## Calls and runs -/

theorem Exchange.run_map {α β : Type} (f : α → β) (x : Exchange α) (engine : Call → Reply) :
    (x.map f).run engine = f (x.run engine) := by
  cases x <;> rfl

theorem Exchange.calls_map {α β : Type} (f : α → β) (x : Exchange α) :
    (x.map f).calls = x.calls := by
  cases x <;> rfl

theorem Exchange.AsksFor.calls_eq {x : Exchange (Except Fault String × Timers)} {call : Call}
    (h : x.AsksFor t call) : x.calls = [call] := by
  obtain ⟨resume, rfl, -⟩ := h
  rfl

/-- One call is made, unless it is begun too late. -/
theorem Exchange.calls_unless_concluded {x : Exchange (Except Fault String × Timers)} {call : Call}
    (hasks : t.isConcluded = false → x.AsksFor t call)
    (hlate : t.isConcluded = true → x = .settled (.error tooLate, t)) :
    x.calls = if t.isConcluded then [] else [call] := by
  cases hopen : t.isConcluded with
  | true => rw [hlate hopen, calls, if_pos rfl]
  | false => rw [(hasks hopen).calls_eq, if_neg Bool.false_ne_true]

theorem PathRequest.calls_exchange {r : PathRequest} {call : Call} (h : r.call = .ok call)
    (now : Nat) (t : Timers) :
    (r.exchange now t).calls = if t.isConcluded then [] else [call] :=
  Exchange.calls_unless_concluded (fun hopen => exchange_asksFor h hopen now)
    fun hlate => exchange_concluded hlate r now

theorem NetworkRequest.calls_exchange {r : NetworkRequest} {call : Call} (h : r.call? = some call)
    (now : Nat) (t : Timers) :
    (r.exchange now t).calls = if t.isConcluded then [] else [call] :=
  Exchange.calls_unless_concluded (fun hopen => exchange_asksFor h hopen now)
    fun hlate => exchange_concluded hlate h now

namespace Service

variable {α : Type} {read : String → Except Fault α} {withRaw : Bool}

/-- The data of a document, with the document if it is to be passed through. -/
def results (server : Server) (read : String → Except Fault α) (withRaw : Bool) (raw : String) :
    Except Fault (α × Option String) := do
  let data ← read raw
  let kept ← (if withRaw then (passThrough raw server.wording).map some else .ok none :
    Except Fault _)
  return (data, kept)

/-- The stopwatches of the work on a document, if there is one. -/
def processTimers : Except Fault String → List String
  | .ok _ => [processTimer]
  | .error _ => []

/-- Nor do those of the work on a document fail. -/
theorem process_open (hopen : t.isConcluded = false) (server : Server) (now : Nat)
    (document : Except Fault String) :
    ∃ after, process server now read withRaw document t =
      (document.bind (results server read withRaw), after) ∧
        t.Grows (processTimers document) after := by
  unfold process results
  cases document with
  | error fault => exact ⟨t, Timed.lift_error fault _, .refl hopen⟩
  | ok raw =>
    obtain ⟨begun, hbegun, hbegunOpen, hstate⟩ := Timers.start_open hopen now processTimer
    have hrunning : begun.state processTimer = .running := by rw [hstate, if_pos rfl]
    obtain ⟨ended, hended, hendedOpen, hstate'⟩ := Timers.stop_running hrunning now
    have hgrows := Timers.Grows.start hbegunOpen hstate
    rw [Timed.lift_ok, Timed.bind_ok (Timed.clock_ok hbegun), Except.bind]
    cases read raw with
    | error fault => exact ⟨begun, Timed.lift_error fault _, hgrows⟩
    | ok data =>
      rw [Timed.lift_ok]
      cases (if withRaw then (passThrough raw server.wording).map some else .ok none) with
      | error fault => exact ⟨begun, Timed.lift_error fault _, hgrows⟩
      | ok kept =>
        refine ⟨ended, ?_, hgrows.trans (.stop hrunning hendedOpen hstate')⟩
        rw [Timed.lift_ok, Timed.bind_ok (Timed.clock_ok hended)]
        rfl

end Service

end Linkage
