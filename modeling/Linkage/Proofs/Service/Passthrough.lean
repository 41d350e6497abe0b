import Mathlib.Data.List.DropRight
import Linkage.Proofs.Service.Outcome

/-!
Queries that pass the engine's document through.

* `passThrough_unpadded`: what is passed through is the document without the spaces around it.
* `process_withRaw`: whether that is asked for does not decide how the work on the document ends,
  because a document that can be read can be passed through.
* `PassesThrough`: two runs that differ in nothing but the document.
-/

namespace Linkage

/-! ## Texts that are passed through -/

/-- The second text is the first one without the JSON spaces around it. -/
structure Unpadded (raw text : List Char) : Prop where
  within : ∃ front back, raw = front ++ text ++ back ∧
    (∀ c ∈ front, Json.Token.isSpace c = true) ∧ ∀ c ∈ back, Json.Token.isSpace c = true
  front : ∀ c ∈ text.head?, Json.Token.isSpace c = false
  back : ∀ c ∈ text.getLast?, Json.Token.isSpace c = false

theorem unpadded_rdropWhile (raw : List Char) :
    Unpadded raw ((raw.dropWhile Json.Token.isSpace).rdropWhile Json.Token.isSpace) := by
  constructor
  · refine ⟨raw.takeWhile Json.Token.isSpace,
      (raw.dropWhile Json.Token.isSpace).rtakeWhile Json.Token.isSpace, ?_, ?_, ?_⟩
    · rw [List.append_assoc, List.rdropWhile_append_rtakeWhile, List.takeWhile_append_dropWhile]
    · exact fun c hc => List.all_eq_true.mp List.all_takeWhile c hc
    · exact fun c hc => List.mem_rtakeWhile_imp hc
  · intro c hc
    have hkept : (raw.dropWhile Json.Token.isSpace).head? = some c := by
      obtain ⟨rest, hrest⟩ := List.rdropWhile_prefix Json.Token.isSpace
        (raw.dropWhile Json.Token.isSpace)
      rw [← hrest, List.head?_append, hc]
      rfl
    have hfront := List.head?_dropWhile_not Json.Token.isSpace raw
    rw [hkept] at hfront
    exact hfront
  · intro c hc
    obtain ⟨hne, rfl⟩ := List.mem_getLast?_eq_getLast hc
    exact Bool.eq_false_iff.mpr (List.rdropWhile_last_not _ _ hne)

theorem passThrough_unpadded {raw text : String} {wording : Json.Wording}
    (h : passThrough raw wording = .ok text) :
    Unpadded raw.toList text.toList := by
  unfold passThrough at h
  split at h
  · cases h
    rw [String.toList_ofList]
    exact unpadded_rdropWhile raw.toList
  · cases h

/-! ## Requests -/

/-- Whether to pass the document through is not checked, and decides nothing else. -/
theorem PathRequest.ofParams_withRaw (server : Server) (p : PathParams) (withRaw : Bool) :
    ofParams server { p with withRaw := withRaw } =
      (ofParams server p).map fun r => { r with withRaw := withRaw } := by
  unfold ofParams
  cases endpoint "from" p.origin with
  | error fault => rfl
  | ok origin =>
    cases endpoint "to" p.target with
    | error fault => rfl
    | ok target =>
      by_cases hkind : origin.kind ≠ target.kind
      · simp only [bind, Except.bind, if_pos hkind, Except.map]
      · simp only [bind, Except.bind, if_neg hkind]
        cases avoided origin target p.avoid with
        | error fault => rfl
        | ok avoid =>
          cases requiredSources server p.sources with
          | error fault => rfl
          | ok sources => cases Limit.maxDegrees.check p.maxDegrees <;> rfl

theorem NetworkRequest.ofParams_withRaw (p : NetworkParams) (withRaw : Bool) :
    ofParams { p with withRaw := withRaw } =
      (ofParams p).map fun r => { r with withRaw := withRaw } := by
  unfold ofParams
  by_cases hnone : p.entities.isEmpty = true
  · simp only [if_pos hnone, Except.map]
  · simp only [if_neg hnone]
    cases Identifier.ofParams "e" p.entities with
    | error fault => rfl
    | ok entities =>
      by_cases hkind : Identifier.areConsistent entities = true
      · simp only [bind, Except.bind, if_pos hkind]
        cases Limit.maxDegrees.check p.maxDegrees with
        | error fault => rfl
        | ok maxDegrees =>
          cases Limit.buildOut.check p.buildOut with
          | error fault => rfl
          | ok buildOut => cases Limit.maxEntities.check p.maxEntities <;> rfl
      · simp only [bind, Except.bind, if_neg hkind, Except.map]

/-! ## Conversations -/

/-- A document can only come from a reply without failure, and is what its buffer holds. -/
theorem endCall_ok {now : Nat} {name document : String} {reply : Reply} {t after : Timers}
    (h : endCall now name reply t = (.ok document, after)) :
    reply.status = 0 ∧ document = reply.buffer := by
  unfold endCall at h
  cases hnamed : t.stop now (namedTimer name) with
  | error fault =>
    rw [Timed.bind_error (Timed.clock_error hnamed)] at h
    cases h
  | ok first =>
    rw [Timed.bind_ok (Timed.clock_ok hnamed)] at h
    cases hcall : first.stop now callTimer with
    | error fault =>
      rw [Timed.bind_error (Timed.clock_error hcall)] at h
      cases h
    | ok second =>
      rw [Timed.bind_ok (Timed.clock_ok hcall)] at h
      have hdocument : reply.document = .ok document := congrArg Prod.fst h
      unfold Reply.document at hdocument
      split at hdocument
      · rename_i hstatus
        cases hdocument
        exact ⟨hstatus, rfl⟩
      · cases hdocument

/-- The document is what the one call has left in the buffer. -/
theorem exchange_buffer {prepare : Timed Call} {now : Nat} {name document : String}
    {t after : Timers} {engine : Call → Reply}
    (h : (Timed.exchange prepare (endCall now name) t).run engine = (.ok document, after)) :
    ∃ call, (Timed.exchange prepare (endCall now name) t).calls = [call] ∧
      (engine call).status = 0 ∧ document = (engine call).buffer := by
  unfold Timed.exchange at h ⊢
  rcases hprepare : prepare t with ⟨fault | call, begun⟩
  · rw [hprepare] at h
    cases h
  · rw [hprepare] at h
    exact ⟨call, rfl, endCall_ok h⟩

namespace Service

variable {α : Type} {server : Server} {read : String → Except Fault α}

/-- However the work on a document ends, it does so with the document and without it: in the same
fault, or with the same data. -/
theorem process_withRaw (hread : Reads server read) (now : Nat) (document : Except Fault String)
    (t : Timers) :
    (∃ fault after, ∀ withRaw,
      process server now read withRaw document t = (.error fault, after)) ∨
    ∃ raw data text after, document = .ok raw ∧ passThrough raw server.wording = .ok text ∧
      ∀ withRaw : Bool, process server now read withRaw document t =
        (.ok (data, if withRaw then some text else none), after) := by
  unfold process
  cases document with
  | error fault => exact .inl ⟨fault, t, fun _ => Timed.lift_error fault _⟩
  | ok raw =>
    simp only [Timed.lift_ok]
    cases hstart : t.start now processTimer with
    | error fault =>
      exact .inl ⟨.timer fault, t, fun _ => Timed.bind_error (Timed.clock_error hstart)⟩
    | ok begun =>
      have hbegin : Timed.clock (fun t => t.start now processTimer) t = (.ok (), begun) :=
        Timed.clock_ok hstart
      simp only [Timed.bind_ok hbegin]
      cases hdata : read raw with
      | error fault => exact .inl ⟨fault, begun, fun _ => Timed.lift_error fault _⟩
      | ok data =>
        obtain ⟨text, htext⟩ := hread.json raw data hdata server.wording
        -- what can be read can be passed through, so this step does not fail either
        have hkept (withRaw : Bool) :
            (if withRaw then (passThrough raw server.wording).map some else .ok none :
              Except Fault _) =
              .ok (if withRaw then some text else none) := by
          rw [htext]
          cases withRaw <;> rfl
        simp only [Timed.lift_ok, hkept]
        cases hstop : begun.stop now processTimer with
        | error fault =>
          exact .inl ⟨.timer fault, begun, fun _ => Timed.bind_error (Timed.clock_error hstop)⟩
        | ok ended =>
          exact .inr ⟨raw, data, text, ended, rfl, htext,
            fun _ => Timed.bind_ok (Timed.clock_ok hstop)⟩

theorem answer_withRaw (hread : Reads server read) (now : Timestamp) (link : String)
    (outcome : Except Fault String × Timers) :
    (∃ fault info, ∀ withRaw,
      answer server now link read withRaw outcome = .failure fault link info) ∨
    ∃ raw data text info, outcome.1 = .ok raw ∧ passThrough raw server.wording = .ok text ∧
      ∀ withRaw : Bool, answer server now link read withRaw outcome =
        .success data link info (if withRaw then some text else none) := by
  obtain ⟨document, timers⟩ := outcome
  obtain ⟨fault, after, hfault⟩ | ⟨raw, data, text, after, hdocument, htext, hdata⟩ :=
    process_withRaw hread now.millis document timers
  · refine .inl ⟨fault, ⟨.get, fault.status, now, server.native, after⟩, fun withRaw => ?_⟩
    rw [answer, hfault withRaw]
    rfl
  · refine .inr ⟨raw, data, text, ⟨.get, 200, now, server.native, after⟩, hdocument, htext,
      fun withRaw => ?_⟩
    rw [answer, hdata withRaw]
    rfl

/-! ## Two runs -/

/-- Two responses that differ in the document that is passed through, if in anything. -/
inductive SameVerdict : Response α → Response α → Prop
  | success (data : α) (link : String) (info : ResponseInfo) (plain raw : Option String) :
      SameVerdict (.success data link info plain) (.success data link info raw)
  | failure (fault : Fault) (link : String) (info : ResponseInfo) :
      SameVerdict (.failure fault link info) (.failure fault link info)

/-- What the second conversation adds to the first is the document of its call, and only when there
are data. -/
structure PassesThrough (plain raw : Exchange (Response α)) : Prop where
  calls : raw.calls = plain.calls
  verdict : ∀ engine, SameVerdict (plain.run engine) (raw.run engine)
  absent : ∀ engine, (plain.run engine).rawData? = none
  verbatim : ∀ engine data link info kept, raw.run engine = .success data link info kept →
    ∃ call text, raw.calls = [call] ∧ (engine call).status = 0 ∧ kept = some text ∧
      Unpadded (engine call).buffer.toList text.toList

theorem passesThrough_failure (fault : Fault) (link : String) (info : ResponseInfo) :
    PassesThrough (α := α) (.settled (.failure fault link info))
      (.settled (.failure fault link info)) where
  calls := rfl
  verdict _ := .failure fault link info
  absent _ := rfl
  verbatim _ _ _ _ _ h := by cases h

/-- The call is made before it matters whether its document is passed through. -/
theorem passesThrough_exchange (hread : Reads server read) (now : Timestamp) (link : String)
    (prepare : Timed Call) (name : String) (timers : Timers) :
    PassesThrough
      ((Timed.exchange prepare (endCall now.millis name) timers).map
        (answer server now link read false))
      ((Timed.exchange prepare (endCall now.millis name) timers).map
        (answer server now link read true)) := by
  have hanswer (engine : Call → Reply) := answer_withRaw hread now link
    ((Timed.exchange prepare (endCall now.millis name) timers).run engine)
  constructor
  · rw [Exchange.calls_map, Exchange.calls_map]
  · intro engine
    rw [Exchange.run_map, Exchange.run_map]
    obtain ⟨fault, info, hfault⟩ | ⟨_, data, text, info, _, _, hdata⟩ := hanswer engine
    · rw [hfault, hfault]
      exact .failure fault link info
    · rw [hdata, hdata]
      exact .success data link info _ _
  · intro engine
    rw [Exchange.run_map]
    obtain ⟨fault, info, hfault⟩ | ⟨_, data, text, info, _, _, hdata⟩ := hanswer engine
    · rw [hfault]
      rfl
    · rw [hdata]
      rfl
  · intro engine data link' info kept hsuccess
    rw [Exchange.run_map] at hsuccess
    obtain ⟨fault, info', hfault⟩ | ⟨raw, data', text, info', hraw, htext, hdata⟩ := hanswer engine
    · rw [hfault] at hsuccess
      cases hsuccess
    · rw [hdata] at hsuccess
      cases hsuccess
      obtain ⟨call, hcalls, hstatus, rfl⟩ := exchange_buffer (Prod.ext hraw rfl)
      rw [Exchange.calls_map]
      exact ⟨call, text, hcalls, hstatus, rfl, passThrough_unpadded htext⟩

/-- **Passing through adds the document and nothing else.** A query that is to pass the engine's
document through makes the call that it makes without that, if any, and ends with the same data or
the same fault. Without it there is no document in the response; with it there is one whenever there
are data, and it is what the engine has written, without the spaces around it. A document that can
be read is never refused. -/
theorem passing_through_adds_document (server : Server) (now : Timestamp) (link : String)
    (timers : Timers) :
    (∀ params : PathParams,
      PassesThrough (findPath server now { params with withRaw := false } link timers)
        (findPath server now { params with withRaw := true } link timers)) ∧
    (∀ params : NetworkParams,
      PassesThrough (findNetwork server now { params with withRaw := false } link timers)
        (findNetwork server now { params with withRaw := true } link timers)) ∧
    ∀ raw, (∃ result, PathResult.read server raw = .ok result) ∨
      (∃ result, NetworkResult.read server raw = .ok result) →
      ∀ wording, ∃ text, passThrough raw wording = .ok text := by
  refine ⟨fun params => ?_, fun params => ?_, fun raw hread => ?_⟩
  · unfold findPath
    rw [PathRequest.ofParams_withRaw server params false,
      PathRequest.ofParams_withRaw server params true]
    cases PathRequest.ofParams server params with
    | error fault => exact passesThrough_failure fault link _
    | ok request => exact passesThrough_exchange (reads_path server) now link _ _ timers
  · unfold findNetwork
    rw [NetworkRequest.ofParams_withRaw params false, NetworkRequest.ofParams_withRaw params true]
    cases NetworkRequest.ofParams params with
    | error fault => exact passesThrough_failure fault link _
    | ok request => exact passesThrough_exchange (reads_network server) now link _ _ timers
  · obtain ⟨result, h⟩ | ⟨result, h⟩ := hread
    · exact (reads_path server).json raw result h
    · exact (reads_network server).json raw result h

/-- An engine that answers every call with an empty document, between spaces. -/
def spacious (_ : Call) : Reply := ⟨0, " \x7b\x7d\n", 0, ""⟩

/-- The empty document is read as a network without entities, and comes through without the
spaces. -/
theorem spacious_passes_through :
    PassesThrough
        (findNetwork customersOnly ⟨0, 0⟩ { entities := ["1"], withRaw := false } "/"
          (Timers.started 0 ["overall"]))
        (findNetwork customersOnly ⟨0, 0⟩ { entities := ["1"], withRaw := true } "/"
          (Timers.started 0 ["overall"])) ∧
      ((findNetwork customersOnly ⟨0, 0⟩ { entities := ["1"], withRaw := true } "/"
        (Timers.started 0 ["overall"])).run spacious).rawData? = some "\x7b\x7d" ∧
      NetworkResult.read customersOnly " \x7b\x7d\n" = .ok ⟨[], [], false⟩ ∧
      ∃ text, passThrough " \x7b\x7d\n" = .ok text := by
  obtain ⟨-, hnetworks, hnever⟩ := passing_through_adds_document customersOnly ⟨0, 0⟩ "/"
    (Timers.started 0 ["overall"])
  have hread : NetworkResult.read customersOnly " \x7b\x7d\n" = .ok ⟨[], [], false⟩ := by
    decide +kernel
  have hkept : ((findNetwork customersOnly ⟨0, 0⟩ { entities := ["1"], withRaw := true } "/"
      (Timers.started 0 ["overall"])).run spacious).rawData? = some "\x7b\x7d" := by
    decide +kernel
  exact ⟨hnetworks { entities := ["1"] }, hkept, hread, hnever _ (.inr ⟨_, hread⟩) .plain⟩

end Service

end Linkage
