import Linkage.Proofs.Engine.Names
import Linkage.Proofs.Engine.Results
import Linkage.Proofs.Json.Values
import Linkage.Proofs.Request.Carried
import Linkage.Proofs.Service.Outcome

namespace Linkage

/-- Avoided entities may be passed through where there is no way around them; a request without
filters does not say so. -/
def PathRequest.goesAround (r : PathRequest) : Bool :=
  (r.avoid.isSome || r.sources.isSome) && !r.forbidAvoided

namespace Graph

variable {g : Graph} {wording : Json.Wording}

/-! ## Answers to requests -/

theorem requireAll_holds {list : IdentifierList} {kind : Kind} {ids : List Identifier}
    (h : list.Holds kind ids) : g.requireAll list = ids.mapM g.require := by
  rw [requireAll_names, h.names_eq]

theorem requireEnds_eq (g : Graph) (ends : Endpoints) :
    g.requireEnds ends = do return (← g.require ends.origin, ← g.require ends.target) := by
  cases ends <;> rfl

theorem avoidedBy_identifiersText {kind : Kind} {ids : List Identifier}
    (h : ∀ id ∈ ids, id.kind = kind) (wording : Json.Wording) :
    g.avoidedBy (Arguments.identifiersText kind ids) wording = ids.mapM g.require := by
  obtain ⟨list, hread, hholds⟩ := Arguments.ofText?_identifiersText h
  rw [avoidedBy, hread, ← requireAll_holds hholds]
  rfl

theorem rules_includingSource {excluded sources : String} {required : List String} (flags : Int64)
    (h : SourceList.ofText? sources = some required) :
    g.rules (.includingSource excluded sources flags) wording =
      (g.avoidedBy excluded wording).map fun avoided =>
        ⟨avoided, prefersExclude flags, some required⟩ := by
  rw [rules, h]
  cases g.avoidedBy excluded wording <;> rfl

/-- The document of a path request, from what its identifiers stand for. -/
def pathDocument (g : Graph) (r : PathRequest) : Except EngineFault Document := do
  let origin ← g.require r.origin
  let target ← g.require r.target
  let avoided ← (r.avoid.getD []).mapM g.require
  return g.describePath origin target r.maxDegrees ⟨avoided, r.goesAround, r.sources⟩

/-- The document of a network request, from what its members stand for. -/
def networkDocument (g : Graph) (r : NetworkRequest) : Except EngineFault Document := do
  let ids ← r.entities.mapM g.require
  return g.describeNetwork ids r.maxDegrees r.buildOut r.maxEntities

end Graph

namespace PathRequest

variable {r : PathRequest}

/-- The rules of a call are those of its request, for the entities that the avoided ones stand for.
-/
theorem Uniform.rules_eq (h : r.Uniform) (g : Graph) (wording : Json.Wording) :
    g.rules r.filter wording = ((r.avoid.getD []).mapM g.require).map fun avoided =>
      ⟨avoided, r.goesAround, r.sources⟩ := by
  rw [← Graph.avoidedBy_identifiersText h.avoid_kind wording]
  cases hs : r.sources with
  | some sources =>
    have hfilter : r.filter = .includingSource (Arguments.identifiersText r.kind (r.avoid.getD []))
        (Arguments.sourcesText sources) (Call.avoidanceFlags r.forbidAvoided) := by
      simp [filter, variant, PathVariant.of, hs]
    rw [hfilter, Graph.rules_includingSource _ (Arguments.ofText?_sourcesText sources),
      Call.prefersExclude_avoidanceFlags]
    simp [goesAround, hs]
  | none =>
    cases ha : r.avoid with
    | some ids =>
      have hfilter : r.filter = .excluding (Arguments.identifiersText r.kind ids)
          (Call.avoidanceFlags r.forbidAvoided) := by
        simp [filter, variant, PathVariant.of, hs, ha]
      rw [hfilter, Graph.rules_excluding_eq, Call.prefersExclude_avoidanceFlags]
      simp [goesAround, ha]
    | none =>
      have hfilter : r.filter = .unfiltered := by simp [filter, variant, PathVariant.of, hs, ha]
      rw [hfilter, Option.getD_none, Graph.avoidedBy_nil]
      simp [goesAround, hs, ha, Graph.rules, Except.map]

/-- A checked request is answered from what its identifiers stand for; its call is for one kind of
identifiers, but the answer is not. -/
theorem Uniform.answer_eq (h : r.Uniform) (g : Graph) :
    ∃ call, r.call = .ok call ∧ ∀ wording, g.answer call wording = g.pathDocument r := by
  obtain ⟨ends, hcall, _, hends⟩ := h.call_ok
  refine ⟨_, hcall, fun wording => ?_⟩
  obtain ⟨horigin, htarget⟩ := endpoints?_names hends
  rw [Graph.answer, Graph.requireEnds_eq, horigin, htarget, h.rules_eq, Graph.pathDocument]
  cases g.require r.origin <;> cases g.require r.target <;>
    cases (r.avoid.getD []).mapM g.require <;> rfl

end PathRequest

namespace NetworkRequest

/-- A checked request is answered from what its members stand for, whatever their kind. -/
theorem answer_eq {p : NetworkParams} {r : NetworkRequest} (h : ofParams p = .ok r) (g : Graph) :
    ∃ call, r.call? = some call ∧ ∀ wording, g.answer call wording = g.networkDocument r := by
  obtain ⟨kind, hkind, hall⟩ := ofParams_uniform h
  obtain ⟨list, hread, hholds⟩ := Arguments.ofText?_identifiersText hall
  refine ⟨_, by rw [call?, hkind, Option.map_some], fun wording => ?_⟩
  rw [Graph.answer, hread, Graph.networkDocument, ← Graph.requireAll_holds hholds]
  rfl

end NetworkRequest

/-! ## Documents as they are read -/

namespace Graph

variable {g : Graph} {d : Document}

theorem pathDocument_read (server : Server) {r : PathRequest} (h : g.pathDocument r = .ok d) :
    ∃ data, PathResult.read server d.text = .ok data := by
  obtain ⟨origin, _, h⟩ := Except.bind_eq_ok.mp h
  obtain ⟨target, _, h⟩ := Except.bind_eq_ok.mp h
  obtain ⟨avoided, _, h⟩ := Except.bind_eq_ok.mp h
  cases h
  exact ⟨_, path_read server _⟩

theorem networkDocument_read (server : Server) {r : NetworkRequest}
    (h : g.networkDocument r = .ok d) : ∃ data, NetworkResult.read server d.text = .ok data := by
  obtain ⟨ids, _, h⟩ := Except.bind_eq_ok.mp h
  cases h
  exact ⟨_, network_read server _ _ _⟩

end Graph

/-- A document that is read is a JSON text without spaces around it. -/
theorem Document.passThrough_text (d : Document) (wording : Json.Wording) :
    passThrough d.text wording = .ok d.text := by
  obtain ⟨tree, htree, -⟩ := Option.bind_eq_some_iff.mp (ofText?_text d)
  obtain ⟨inner, hlist⟩ : ∃ inner, d.text.toList = '{' :: inner ++ ['}'] :=
    Json.Value.compact_object _
  have hopen : Json.Token.isSpace '{' = false := by decide
  have hclose : Json.Token.isSpace '}' = false := by decide
  rw [passThrough, htree, ← String.ofList_toList (s := d.text), hlist]
  simp [hopen, hclose]

/-! ## Requests that differ in names -/

/-- Two path requests that differ only in how they name the same entities. -/
structure PathRequest.SameEntities (g : Graph) (r s : PathRequest) : Prop where
  origin : g.SameEntity r.origin s.origin
  target : g.SameEntity r.target s.target
  avoid : Option.Rel (List.Forall₂ g.SameEntity) r.avoid s.avoid
  rest : { r with origin := s.origin, target := s.target, avoid := s.avoid } = s

/-- Two network requests that differ only in how they name the same members. -/
structure NetworkRequest.SameEntities (g : Graph) (r s : NetworkRequest) : Prop where
  entities : List.Forall₂ g.SameEntity r.entities s.entities
  rest : { r with entities := s.entities } = s

theorem forall₂_getD {α β : Type} {R : α → β → Prop} {xs : Option (List α)} {ys : Option (List β)}
    (h : Option.Rel (List.Forall₂ R) xs ys) :
    List.Forall₂ R (xs.getD []) (ys.getD []) ∧ xs.isSome = ys.isSome := by
  cases h with
  | some hlist => exact ⟨hlist, rfl⟩
  | none => exact ⟨.nil, rfl⟩

theorem PathRequest.SameEntities.document {g : Graph} {r s : PathRequest}
    (h : SameEntities g r s) : ∃ d, g.pathDocument r = .ok d ∧ g.pathDocument s = .ok d := by
  obtain ⟨origin, ho, ho'⟩ := h.origin.require
  obtain ⟨target, ht, ht'⟩ := h.target.require
  obtain ⟨havoid, hsome⟩ := forall₂_getD h.avoid
  obtain ⟨avoided, ha, ha'⟩ := Graph.requires_same havoid
  refine ⟨g.describePath origin target r.maxDegrees ⟨avoided, r.goesAround, r.sources⟩, ?_, ?_⟩
  · rw [Graph.pathDocument, ho, ht, ha]
    rfl
  · rw [← h.rest]
    simp only [Graph.pathDocument, ho', ht', ha', goesAround, hsome]
    rfl

theorem NetworkRequest.SameEntities.document {g : Graph} {r s : NetworkRequest}
    (h : SameEntities g r s) : ∃ d, g.networkDocument r = .ok d ∧ g.networkDocument s = .ok d := by
  obtain ⟨ids, hr, hs⟩ := Graph.requires_same h.entities
  refine ⟨g.describeNetwork ids r.maxDegrees r.buildOut r.maxEntities, ?_, ?_⟩
  · rw [Graph.networkDocument, hr]
    rfl
  · rw [← h.rest, Graph.networkDocument, hs]
    rfl

namespace Service

variable {α : Type} {g : Graph}

/-- One call is made, and the engine answers it with a document. The response has the data in the
document, and the document as well if it is to be passed through. -/
structure Delivers (g : Graph) (x : Exchange (Response α)) (withRaw : Bool) (document : String)
    (data : α) : Prop where
  asked : ∃ call, x.calls = [call] ∧ ∀ wording, g.reply call wording = ⟨0, document, 0, ""⟩
  told : ∀ wording, ∃ link info,
    x.run (fun call => g.reply call wording) = .success data link info
      (if withRaw then some document else none)

theorem delivers_of_asksFor {x : Exchange (Except Fault String × Timers)} {t : Timers}
    {call : Call} (hx : x.AsksFor t call) {d : Document}
    (hanswer : ∀ wording, g.answer call wording = .ok d) {read : String → Except Fault α}
    {data : α} (hread : read d.text = .ok data) (server : Server) (now : Timestamp) (link : String)
    (withRaw : Bool) :
    Delivers g (x.map (answer server now link read withRaw)) withRaw d.text data := by
  have hreply (wording : Json.Wording) : g.reply call wording = ⟨0, d.text, 0, ""⟩ := by
    rw [Graph.reply, Session.call_ok.mpr ⟨d, hanswer wording, rfl⟩]
    rfl
  constructor
  · obtain ⟨resume, rfl, -⟩ := hx
    exact ⟨call, rfl, hreply⟩
  · intro wording
    obtain ⟨after, hrun, _⟩ := run_of_asksFor hx server now link read withRaw
      fun call => g.reply call wording
    rw [hrun, hreply, Reply.document, if_pos rfl, Except.bind, results, hread,
      Document.passThrough_text]
    cases withRaw <;> exact ⟨_, _, rfl⟩

variable {server : Server} {d : Document}

theorem findPath_delivers {p : PathParams} {r : PathRequest}
    (hr : PathRequest.ofParams server p = .ok r) (hd : g.pathDocument r = .ok d)
    {data : PathResult} (hread : PathResult.read server d.text = .ok data)
    {timers : Timers} (hopen : timers.isConcluded = false) (now : Timestamp) (link : String) :
    Delivers g (findPath server now p link timers) r.withRaw d.text data := by
  obtain ⟨call, hcall, hanswer⟩ := (PathRequest.ofParams_uniform hr).answer_eq g
  have hasks := PathRequest.exchange_asksFor hcall hopen now.millis
  rw [findPath, hr]
  exact delivers_of_asksFor hasks (fun wording => (hanswer wording).trans hd) hread server now
    link r.withRaw

theorem findNetwork_delivers {p : NetworkParams} {r : NetworkRequest}
    (hr : NetworkRequest.ofParams p = .ok r) (hd : g.networkDocument r = .ok d)
    {data : NetworkResult}
    (hread : NetworkResult.read server d.text = .ok data) {timers : Timers}
    (hopen : timers.isConcluded = false) (now : Timestamp) (link : String) :
    Delivers g (findNetwork server now p link timers) r.withRaw d.text data := by
  obtain ⟨call, hcall, hanswer⟩ := NetworkRequest.answer_eq hr g
  have hasks := NetworkRequest.exchange_asksFor hcall hopen now.millis
  rw [findNetwork, hr]
  exact delivers_of_asksFor hasks (fun wording => (hanswer wording).trans hd) hread server now
    link r.withRaw

/-- **Names do not matter.** Two checked queries that differ only in how they name the same
entities, by number or by whichever of their records, stand for one document, and both are answered
with it: the engine writes it for each of them, and the responses have the same data, and the
document as well if it is passed through. -/
theorem same_entities_same_results (server : Server) (g : Graph) (now now' : Timestamp)
    (link link' : String) (timers timers' : Timers)
    (hopen : timers.isConcluded = false) (hopen' : timers'.isConcluded = false) :
    (∀ (p q : PathParams) (r s : PathRequest), PathRequest.ofParams server p = .ok r →
      PathRequest.ofParams server q = .ok s → r.SameEntities g s →
      ∃ d data, g.pathDocument r = .ok d ∧ g.pathDocument s = .ok d ∧
        Delivers g (findPath server now p link timers) r.withRaw d.text data ∧
        Delivers g (findPath server now' q link' timers') r.withRaw d.text data) ∧
    (∀ (p q : NetworkParams) (r s : NetworkRequest), NetworkRequest.ofParams p = .ok r →
      NetworkRequest.ofParams q = .ok s → r.SameEntities g s →
      ∃ d data, g.networkDocument r = .ok d ∧ g.networkDocument s = .ok d ∧
        Delivers g (findNetwork server now p link timers) r.withRaw d.text data ∧
        Delivers g (findNetwork server now' q link' timers') r.withRaw d.text data) := by
  constructor
  · intro p q r s hr hs hsame
    obtain ⟨d, hdr, hds⟩ := hsame.document
    obtain ⟨data, hread⟩ := Graph.pathDocument_read server hdr
    have hraw : s.withRaw = r.withRaw := (congrArg PathRequest.withRaw hsame.rest).symm
    exact ⟨d, data, hdr, hds, findPath_delivers hr hdr hread hopen now link,
      hraw ▸ findPath_delivers hs hds hread hopen' now' link'⟩
  · intro p q r s hr hs hsame
    obtain ⟨d, hdr, hds⟩ := hsame.document
    obtain ⟨data, hread⟩ := Graph.networkDocument_read server hdr
    have hraw : s.withRaw = r.withRaw := (congrArg NetworkRequest.withRaw hsame.rest).symm
    exact ⟨d, data, hdr, hds, findNetwork_delivers hr hdr hread hopen now link,
      hraw ▸ findNetwork_delivers hs hds hread hopen' now' link'⟩

/-- Three entities in a row; the first has two records. -/
def namesakes : Graph where
  fixture :=
    { sources := []
      entities := [⟨1, some "First", [⟨"A", "1"⟩, ⟨"B", "x"⟩], .empty⟩,
        ⟨2, none, [⟨"A:B", "2"⟩], .empty⟩, ⟨3, none, [⟨"A", "3"⟩], .empty⟩]
      relationships := [⟨1, 2, 1, some "+NAME", false, false⟩, ⟨2, 3, 1, none, false, true⟩] }
  accepted := by decide +kernel

/-- From the first to the last, around the second where possible, all named by records. -/
def byRecords : PathParams where
  origin := some "B:x"
  target := some "A:3"
  avoid := ["\x7b\"src\":\"A:B\",\"id\":\"2\"\x7d"]
  withRaw := true

def byNumbers : PathParams where
  origin := some "1"
  target := some "3"
  avoid := ["2"]
  withRaw := true

theorem namesakes_same_results :
    (Timers.started 0 ["overall"]).isConcluded = false ∧
      (∃ r s, PathRequest.ofParams customersOnly byRecords = .ok r ∧
        PathRequest.ofParams customersOnly byNumbers = .ok s ∧ r.SameEntities namesakes s ∧
        ∃ d data, namesakes.pathDocument r = .ok d ∧ namesakes.pathDocument s = .ok d ∧
          Delivers namesakes (findPath customersOnly ⟨0, 0⟩ byRecords "/"
            (Timers.started 0 ["overall"])) r.withRaw d.text data ∧
          Delivers namesakes (findPath customersOnly ⟨9, 9⟩ byNumbers "//"
            (Timers.started 9 ["overall"])) r.withRaw d.text data) ∧
      ∃ r s, NetworkRequest.ofParams { entities := ["A:1", "B:x"] } = .ok r ∧
        NetworkRequest.ofParams { entities := ["1", "1"] } = .ok s ∧ r.SameEntities namesakes s ∧
        ∃ d data, namesakes.networkDocument r = .ok d ∧ namesakes.networkDocument s = .ok d ∧
          Delivers namesakes (findNetwork customersOnly ⟨0, 0⟩ { entities := ["A:1", "B:x"] } "/"
            (Timers.started 0 ["overall"])) r.withRaw d.text data ∧
          Delivers namesakes (findNetwork customersOnly ⟨9, 9⟩ { entities := ["1", "1"] } "//"
            (Timers.started 9 ["overall"])) r.withRaw d.text data := by
  have h := same_entities_same_results customersOnly namesakes ⟨0, 0⟩ ⟨9, 9⟩ "/" "//"
    (Timers.started 0 ["overall"]) (Timers.started 9 ["overall"]) rfl rfl
  have hr : PathRequest.ofParams customersOnly byRecords = .ok ⟨.record ⟨"B", "x"⟩,
      .record ⟨"A", "3"⟩, 3, some [.record ⟨"A:B", "2"⟩], false, none, true⟩ := by decide +kernel
  have hs : PathRequest.ofParams customersOnly byNumbers =
      .ok ⟨.entity 1, .entity 3, 3, some [.entity 2], false, none, true⟩ := by decide +kernel
  have hr' : NetworkRequest.ofParams { entities := ["A:1", "B:x"] } =
      .ok ⟨[.record ⟨"A", "1"⟩, .record ⟨"B", "x"⟩], 5, 1, 1000, false⟩ := by decide +kernel
  have hs' : NetworkRequest.ofParams { entities := ["1", "1"] } =
      .ok ⟨[.entity 1, .entity 1], 5, 1, 1000, false⟩ := by decide +kernel
  have hfirst : namesakes.SameEntity (.record ⟨"B", "x"⟩) (.entity 1) := by decide +kernel
  have hother : namesakes.SameEntity (.record ⟨"A", "1"⟩) (.entity 1) := by decide +kernel
  have hmiddle : namesakes.SameEntity (.record ⟨"A:B", "2"⟩) (.entity 2) := by decide +kernel
  have hlast : namesakes.SameEntity (.record ⟨"A", "3"⟩) (.entity 3) := by decide +kernel
  have hpath := h.1 _ _ _ _ hr hs ⟨hfirst, hlast, .some (.cons hmiddle .nil), rfl⟩
  have hnetwork := h.2 _ _ _ _ hr' hs' ⟨.cons hother (.cons hfirst .nil), rfl⟩
  exact ⟨rfl,
    ⟨_, _, hr, hs, ⟨hfirst, hlast, .some (.cons hmiddle .nil), rfl⟩, hpath⟩,
    _, _, hr', hs', ⟨.cons hother (.cons hfirst .nil), rfl⟩, hnetwork⟩

end Service

end Linkage
