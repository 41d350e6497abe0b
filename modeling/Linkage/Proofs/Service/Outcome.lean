import Linkage.Proofs.Engine.Documents
import Linkage.Proofs.Service.Conversation

/-!
How queries end.

* `Refused`: no call is made, and the response tells what is wrong with the parameters.
* `Asked`: one call is made, and the response follows from its reply.
-/

namespace Linkage

open Json (Value)

/-- The call that serves a path request: the call for its kind of identifiers, and for the filters
that it has. -/
def PathRequest.Selects (r : PathRequest) (call : Call) : Prop :=
  ∃ ends filter, call = .path ends r.maxDegrees filter ∧ ends.kind = r.kind ∧
    filter.variant =
      match r.avoid, r.sources with
      | _, some _ => .includingSource
      | some _, none => .excluding
      | none, none => .unfiltered

/-- The call that serves a network request: the call for its kind of identifiers. -/
def NetworkRequest.Selects (r : NetworkRequest) (call : Call) : Prop :=
  ∃ kind members, call = .network kind members r.maxDegrees r.buildOut r.maxEntities ∧
    r.kind? = some kind

theorem PathRequest.Uniform.selects {r : PathRequest} (h : r.Uniform) :
    ∃ call, r.call = .ok call ∧ r.Selects call := by
  obtain ⟨ends, hcall, hkind, _⟩ := h.call_ok
  refine ⟨_, hcall, ends, r.filter, rfl, hkind, ?_⟩
  rw [filter_variant, variant, PathVariant.of]
  cases r.sources <;> cases r.avoid <;> rfl

theorem NetworkRequest.ofParams_selects {p : NetworkParams} {r : NetworkRequest}
    (h : ofParams p = .ok r) : ∃ call, r.call? = some call ∧ r.Selects call := by
  obtain ⟨kind, hkind, _⟩ := ofParams_uniform h
  exact ⟨_, by rw [call?, hkind, Option.map_some], kind, _, rfl, hkind⟩

namespace Service

variable {α : Type}

/-- Faults of requests whose identifiers do not fit their call. -/
def misfits : List Fault :=
  [.unexpected "record-keyed call without record identifiers",
    .unexpected "entity-keyed call without entity identifiers",
    .unexpected "entity network requested without members"]

/-- How a failed query is told: by its status and fault, and in the envelope, whatever data it would
have held, by the status and one error. The error has the engine's code if there is one, and the
message. -/
structure Fails (r : Response α) (status : Nat) (fault : Fault) (code? : Option Int32)
    (message : String) : Prop where
  ended : r.status = status
  told : r.fault? = some fault
  code : fault.engineCode? = code?
  envelope : ∀ (encode : α → Value) (now : Nat), ∃ links info error,
    (r.map encode).members now =
        [("links", links), ("meta", .object info), ("errors", .array [.object error])] ∧
      info.lookup "httpStatusCode" = some (.int status) ∧
      error.lookup "code" = code?.map (fun code => .int code.toInt) ∧
      error.lookup "message" = some (.text message)

/-- The parameters are refused before any call. -/
structure Refused (x : Exchange (Response α)) (fault : Fault) : Prop where
  silent : x.calls = []
  told : ∀ engine, Fails (x.run engine) 400 fault none fault.message
  fits : fault ∉ misfits

/-- One call is made. When the engine fails the response tells its code and diagnostic; else it
tells the data that are read from the document, or why there are none. -/
structure Asked (x : Exchange (Response α)) (call : Call) (read : String → Except Fault α) :
    Prop where
  once : x.calls = [call]
  failed : ∀ engine : Call → Reply, (engine call).status ≠ 0 →
    Fails (x.run engine) 500 (.engineFailure (engine call).code (engine call).diagnostic)
      (some (engine call).code)
      ("Engine failure (" ++ Text.decimal (engine call).code.toInt ++ "): " ++
        (engine call).diagnostic)
  unreadable : ∀ (engine : Call → Reply) (fault : Fault), (engine call).status = 0 →
    read (engine call).buffer = .error fault →
    Fails (x.run engine) 500 fault none fault.message ∧ fault ∉ misfits
  answered : ∀ (engine : Call → Reply) (data : α), (engine call).status = 0 →
    read (engine call).buffer = .ok data →
    (x.run engine).status = 200 ∧
      ∃ link info raw, x.run engine = .success data link info raw

/-! ## Reading documents -/

/-- Why there may be no data in a document. -/
def readingFaults (server : Server) (raw : String) : List Fault :=
  [.unexpected ("Failed to parse engine result: " ++ server.wording .document raw),
    .unexpected "Engine result has no entity path"]

/-- The reader's own reason does not matter: no text that begins like this one is that of a
misfit. -/
theorem unreadable_fits (reason : String) :
    Fault.unexpected ("Failed to parse engine result: " ++ reason) ∉ misfits := by
  intro h
  obtain ⟨text, htext, heq⟩ : ∃ text : String, text.toList.head? ≠ some 'F' ∧
      "Failed to parse engine result: " ++ reason = text := by
    simp only [misfits, List.mem_cons, List.not_mem_nil, or_false, Fault.unexpected.injEq] at h
    rcases h with h | h | h <;> exact ⟨_, by decide, h⟩
  apply htext
  rw [← heq, String.toList_append]
  rfl

theorem readingFaults_told {server : Server} {raw : String} {fault : Fault}
    (h : fault ∈ readingFaults server raw) :
    fault.status = 500 ∧ fault.engineCode? = none ∧ fault ∉ misfits := by
  simp only [readingFaults, List.mem_cons, List.not_mem_nil, or_false] at h
  rcases h with rfl | rfl
  · exact ⟨rfl, rfl, unreadable_fits _⟩
  · exact ⟨rfl, rfl, by decide⟩

/-- A way to read data out of documents. -/
structure Reads (server : Server) (read : String → Except Fault α) : Prop where
  fault : ∀ raw fault, read raw = .error fault → fault ∈ readingFaults server raw
  json : ∀ raw data, read raw = .ok data → ∀ wording, ∃ kept, passThrough raw wording = .ok kept

theorem document_read_error {server : Server} {raw : String} {fault : Fault}
    (h : Document.read raw server.wording = .error fault) : fault ∈ readingFaults server raw := by
  unfold Document.read at h
  split at h
  · cases h
  · cases h
    exact List.mem_cons_self

/-- A text that holds a document is JSON, and can be passed through. -/
theorem document_read_json {raw : String} {wording : Json.Wording} {d : Document}
    (h : Document.read raw wording = .ok d) (wording' : Json.Wording) :
    ∃ kept, passThrough raw wording' = .ok kept := by
  obtain ⟨tree, htree, _⟩ := Option.bind_eq_some_iff.mp (Document.read_ok.mp h)
  exact ⟨_, by rw [passThrough, htree]⟩

theorem reads_path (server : Server) : Reads server (PathResult.read server) := by
  constructor
  · intro raw fault h
    rcases Except.bind_eq_error.mp h with h | ⟨d, _, h⟩
    · exact document_read_error h
    · split at h
      · cases h
      · cases h
        exact List.mem_cons_of_mem _ List.mem_cons_self
  · intro raw data h
    obtain ⟨d, hd, _⟩ := Except.bind_eq_ok.mp h
    exact document_read_json hd

theorem reads_network (server : Server) : Reads server (NetworkResult.read server) := by
  constructor
  · intro raw fault h
    rcases Except.bind_eq_error.mp h with h | ⟨d, _, h⟩
    · exact document_read_error h
    · cases h
  · intro raw data h
    obtain ⟨d, hd, _⟩ := Except.bind_eq_ok.mp h
    exact document_read_json hd

/-! ## Responses -/

theorem fails_of_error (server : Server) (now : Timestamp) (link : String) (timers : Timers)
    (fault : Fault) :
    Fails (respond (α := α) server now link (.error fault, timers)) fault.status fault
      fault.engineCode? fault.message where
  ended := rfl
  told := rfl
  code := rfl
  envelope encode now' := by
    refine ⟨_, _, _, rfl, rfl, ?_, ?_⟩ <;> cases fault.engineCode? <;> rfl

theorem refused_of_client (server : Server) (now : Timestamp) (link : String) (timers : Timers)
    {fault : Fault} (h : fault.isClient = true) :
    Refused (α := α) (.settled (respond server now link (.error fault, timers))) fault where
  silent := rfl
  told _ := by
    have huncoded : fault.engineCode? = none := by cases fault <;> first | rfl | cases h
    have hfails := fails_of_error (α := α) server now link timers fault
    rwa [huncoded, Fault.status, if_pos h] at hfails
  fits := by
    intro hmem
    simp only [misfits, List.mem_cons, List.not_mem_nil, or_false] at hmem
    rcases hmem with rfl | rfl | rfl <;> cases h

/-- A response to the reply. Beside the stopwatches that were known before it knows those of the
call, and that of the work on the document if the engine has sent one. -/
theorem run_of_asksFor {x : Exchange (Except Fault String × Timers)} {t : Timers} {call : Call}
    (hx : x.AsksFor t call) (server : Server) (now : Timestamp) (link : String)
    (read : String → Except Fault α) (withRaw : Bool) (engine : Call → Reply) :
    ∃ after, (x.map (answer server now link read withRaw)).run engine =
        respond server now link ((engine call).document.bind (results server read withRaw), after) ∧
      t.Grows (call.timers ++ processTimers (engine call).document) after := by
  obtain ⟨resume, rfl, hresume⟩ := hx
  obtain ⟨called, hcalled, hgrows⟩ := hresume (engine call)
  obtain ⟨after, hprocess, hgrows'⟩ : ∃ after,
      process server now.millis read withRaw (engine call).document called =
        ((engine call).document.bind (results server read withRaw), after) ∧
      called.Grows (processTimers (engine call).document) after :=
    process_open hgrows.isOpen server now.millis (engine call).document
  refine ⟨after, ?_, hgrows.trans hgrows'⟩
  change answer server now link read withRaw (resume (engine call)) = _
  rw [hcalled, answer, hprocess]

theorem asked_of_asksFor {x : Exchange (Except Fault String × Timers)} {t : Timers} {call : Call}
    (hx : x.AsksFor t call) (server : Server) (now : Timestamp) (link : String)
    {read : String → Except Fault α} (hread : Reads server read) (withRaw : Bool) :
    Asked (x.map (answer server now link read withRaw)) call read := by
  have hrun := run_of_asksFor hx server now link read withRaw
  obtain ⟨resume, rfl, -⟩ := hx
  constructor
  · rfl
  · intro engine hstatus
    obtain ⟨after, h, _⟩ := hrun engine
    rw [h, Reply.document, if_neg hstatus]
    exact fails_of_error server now link after _
  · intro engine fault hstatus hfault
    obtain ⟨after, h, _⟩ := hrun engine
    obtain ⟨hfive, huncoded, hfits⟩ := readingFaults_told (hread.fault _ _ hfault)
    rw [h, Reply.document, if_pos hstatus, Except.bind, results, hfault]
    have hfails := fails_of_error (α := α) server now link after fault
    rw [hfive, huncoded] at hfails
    exact ⟨hfails, hfits⟩
  · intro engine data hstatus hdata
    obtain ⟨after, h, _⟩ := hrun engine
    obtain ⟨kept, hkept⟩ := hread.json _ _ hdata server.wording
    rw [h, Reply.document, if_pos hstatus, Except.bind, results, hdata, hkept]
    cases withRaw <;> exact ⟨rfl, _, _, _, rfl⟩

/-- **Queries fail fast and ask once.** With stopwatches whose reading has not been taken, a query
whose parameters fail a check makes no call and ends with status 400. Any other makes one call, of
the variant for its identifiers and filters. If the engine fails, the query ends with status 500 and
the envelope's error has the engine's code and diagnostic. If there are no data in its document, it
ends with status 500 and an error without code; else with the data and status 200. -/
theorem queries_fail_fast_and_ask_once (server : Server) (now : Timestamp) (link : String)
    (timers : Timers) (hopen : timers.isConcluded = false) :
    (∀ params : PathParams,
      match PathRequest.ofParams server params with
      | .error fault => Refused (findPath server now params link timers) fault
      | .ok request => ∃ call, request.Selects call ∧
          Asked (findPath server now params link timers) call (PathResult.read server)) ∧
    (∀ params : NetworkParams,
      match NetworkRequest.ofParams params with
      | .error fault => Refused (findNetwork server now params link timers) fault
      | .ok request => ∃ call, request.Selects call ∧
          Asked (findNetwork server now params link timers) call (NetworkResult.read server)) := by
  constructor
  · intro params
    unfold findPath
    cases hchecked : PathRequest.ofParams server params with
    | error fault =>
      exact refused_of_client server now link timers (PathRequest.ofParams_isClient hchecked)
    | ok request =>
      obtain ⟨call, hcall, hselects⟩ := (PathRequest.ofParams_uniform hchecked).selects
      have hasks := PathRequest.exchange_asksFor hcall hopen now.millis
      exact ⟨call, hselects,
        asked_of_asksFor hasks server now link (reads_path server) request.withRaw⟩
  · intro params
    unfold findNetwork
    cases hchecked : NetworkRequest.ofParams params with
    | error fault =>
      exact refused_of_client server now link timers (NetworkRequest.ofParams_isClient hchecked)
    | ok request =>
      obtain ⟨call, hcall, hselects⟩ := NetworkRequest.ofParams_selects hchecked
      have hasks := NetworkRequest.exchange_asksFor hcall hopen now.millis
      exact ⟨call, hselects,
        asked_of_asksFor hasks server now link (reads_network server) request.withRaw⟩

/-- A server that knows one source. -/
def customersOnly : Server := Server.make ["CUSTOMERS"] [] none

/-- With two ends of one kind the engine is asked, without a first end it is not. -/
theorem customersOnly_asks_once :
    (Timers.started 0 ["overall"]).isConcluded = false ∧
      (∃ request, PathRequest.ofParams customersOnly
          { origin := some " 1 ", target := some "2", avoid := ["3"], sources := ["CUSTOMERS"] } =
            .ok request ∧
        ∃ call, request.Selects call ∧
          Asked (findPath customersOnly ⟨0, 0⟩
            { origin := some " 1 ", target := some "2", avoid := ["3"], sources := ["CUSTOMERS"] }
            "/" (Timers.started 0 ["overall"])) call (PathResult.read customersOnly)) ∧
      Refused (findPath customersOnly ⟨0, 0⟩ { target := some "2" } "/"
        (Timers.started 0 ["overall"])) (.missingParameter "from") := by
  have hopen : (Timers.started 0 ["overall"]).isConcluded = false := rfl
  have h := (queries_fail_fast_and_ask_once customersOnly ⟨0, 0⟩ "/" _ hopen).1
  refine ⟨hopen, ⟨⟨.entity 1, .entity 2, 3, some [.entity 3], false, some ["CUSTOMERS"], false⟩,
    rfl, ?_⟩, ?_⟩
  · exact h { origin := some " 1 ", target := some "2", avoid := ["3"], sources := ["CUSTOMERS"] }
  · exact h { target := some "2" }

end Service

end Linkage
