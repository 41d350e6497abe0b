import Linkage.Proofs.Engine.Avoidance
import Linkage.Proofs.Engine.Lists
import Linkage.Proofs.Service.Conversation

namespace Linkage

open Linkage.Graph (prefersExclude)

def Endpoints.origin : Endpoints → Identifier
  | .records a _ => .record a
  | .entities a _ => .entity a

def Endpoints.target : Endpoints → Identifier
  | .records _ b => .record b
  | .entities _ b => .entity b

/-- What an engine reads in the arguments of a path call, against the request. -/
structure PathRequest.CarriedBy (r : PathRequest) (ends : Endpoints) (filter : PathFilter) :
    Prop where
  origin : ends.origin = r.origin
  target : ends.target = r.target
  /-- A call without a list of avoided entities is that of a request without filters. -/
  unfiltered : filter.exclusion? = none ↔ r.avoid = none ∧ r.sources = none
  avoided : ∀ excluded flags, filter.exclusion? = some (excluded, flags) →
    (∃ list, IdentifierList.ofText? excluded = some list ∧
      list.Holds r.kind (r.avoid.getD [])) ∧
    prefersExclude flags = !r.forbidAvoided
  /-- Required sources are passed where the request has some, and are read as the same. -/
  sources : filter.sources?.map SourceList.ofText? = r.sources.map some
  /-- In any graph, a search that gives up its avoided entities is that of a request which has some
  and does not forbid them. -/
  fallback : ∀ (g : Graph) (wording : Json.Wording) (rules : Graph.PathRules),
    g.rules filter wording = .ok rules → ∀ origin target maxDegrees,
      g.bestPath origin target maxDegrees rules.avoided rules.prefer rules.required ≠
        g.shortestPath origin target maxDegrees rules.avoided rules.required →
      r.avoid ≠ none ∧ r.forbidAvoided = false

theorem Graph.bestPath_clear (g : Graph) (origin target : Int64) (maxDegrees : Nat) (prefer : Bool)
    (required : Option (List String)) :
    g.bestPath origin target maxDegrees [] prefer required =
      g.shortestPath origin target maxDegrees [] required := by
  cases prefer with
  | false => exact g.bestPath_hard origin target maxDegrees [] required
  | true => rw [g.bestPath_soft origin target maxDegrees [] required, Option.or_self]

variable {wording : Json.Wording}

theorem Graph.rules_unfiltered {g : Graph} {filter : PathFilter} {rules : Graph.PathRules}
    (he : filter.exclusion? = none) (h : g.rules filter wording = .ok rules) :
    rules = ⟨[], false, none⟩ := by
  cases filter with
  | unfiltered => exact (Except.ok.inj h).symm
  | excluding => cases he
  | includingSource => cases he

theorem Graph.avoidedBy_nil (g : Graph) (kind : Kind) (wording : Json.Wording) :
    g.avoidedBy (Arguments.identifiersText kind []) wording = .ok [] := by
  cases kind <;> rfl

theorem Call.prefersExclude_avoidanceFlags (forbidAvoided : Bool) :
    prefersExclude (avoidanceFlags forbidAvoided) = !forbidAvoided := by
  cases forbidAvoided <;> rfl

namespace PathRequest

variable {r : PathRequest}

theorem filter_exclusion? (r : PathRequest) : r.filter.exclusion? =
    if r.avoid = none ∧ r.sources = none then none
    else some (Arguments.identifiersText r.kind (r.avoid.getD []),
      Call.avoidanceFlags r.forbidAvoided) := by
  cases ha : r.avoid <;> cases hs : r.sources <;>
    simp [filter, variant, PathVariant.of, ha, hs, PathFilter.exclusion?]

theorem filter_sources? (r : PathRequest) :
    r.filter.sources? = r.sources.map Arguments.sourcesText := by
  cases ha : r.avoid <;> cases hs : r.sources <;>
    simp [filter, variant, PathVariant.of, ha, hs, PathFilter.sources?]

theorem Uniform.avoid_kind (h : r.Uniform) : ∀ id ∈ r.avoid.getD [], id.kind = r.kind := by
  intro id hid
  cases ha : r.avoid with
  | none =>
    rw [ha] at hid
    cases hid
  | some ids =>
    rw [ha] at hid
    exact h.avoid ids ha id hid

theorem eq_of_exclusion? {excluded : String} {flags : Int64}
    (h : r.filter.exclusion? = some (excluded, flags)) :
    excluded = Arguments.identifiersText r.kind (r.avoid.getD []) ∧
      flags = Call.avoidanceFlags r.forbidAvoided := by
  rw [filter_exclusion?] at h
  split at h
  · cases h
  · cases h
    exact ⟨rfl, rfl⟩

/-- A request without avoided entities passes an empty list, or no list at all. -/
theorem avoided_eq_nil (ha : r.avoid = none) {g : Graph} {rules : Graph.PathRules}
    (hr : g.rules r.filter wording = .ok rules) : rules.avoided = [] := by
  cases he : r.filter.exclusion? with
  | none => rw [Graph.rules_unfiltered he hr]
  | some pair =>
    obtain ⟨excluded, flags⟩ := pair
    obtain ⟨rfl, -⟩ := eq_of_exclusion? he
    have hread : g.avoidedBy _ wording = .ok rules.avoided :=
      Graph.avoidedBy_ok.mpr (Graph.rules_avoided hr he).1
    rw [ha, Option.getD_none, Graph.avoidedBy_nil] at hread
    exact (Except.ok.inj hread).symm

theorem prefer_eq_false (hf : r.forbidAvoided = true) {g : Graph} {rules : Graph.PathRules}
    (hr : g.rules r.filter wording = .ok rules) : rules.prefer = false := by
  cases he : r.filter.exclusion? with
  | none => rw [Graph.rules_unfiltered he hr]
  | some pair =>
    obtain ⟨excluded, flags⟩ := pair
    obtain ⟨-, rfl⟩ := eq_of_exclusion? he
    rw [(Graph.rules_avoided hr he).2, Call.prefersExclude_avoidanceFlags, hf, Bool.not_true]

theorem endpoints?_names {ends : Endpoints} (h : r.endpoints? = some ends) :
    ends.origin = r.origin ∧ ends.target = r.target := by
  unfold endpoints? at h
  split at h
  · rename_i ho ht
    cases h
    exact ⟨ho.symm, ht.symm⟩
  · rename_i ho ht
    cases h
    exact ⟨ho.symm, ht.symm⟩
  · cases h

/-- The call of a request carries it, whatever texts it is made of. -/
theorem Uniform.carriedBy (h : r.Uniform) {ends : Endpoints} (hends : r.endpoints? = some ends) :
    r.CarriedBy ends r.filter := by
  obtain ⟨horigin, htarget⟩ := endpoints?_names hends
  refine ⟨horigin, htarget, ?_, ?_, ?_, ?_⟩
  · rw [filter_exclusion?]
    split <;> simp_all
  · intro excluded flags he
    obtain ⟨rfl, rfl⟩ := eq_of_exclusion? he
    exact ⟨Arguments.ofText?_identifiersText h.avoid_kind,
      Call.prefersExclude_avoidanceFlags r.forbidAvoided⟩
  · rw [filter_sources?, Option.map_map]
    refine Option.map_congr fun sources _ => ?_
    rw [Function.comp_apply, Arguments.ofText?_sourcesText]
  · intro g wording rules hr origin target maxDegrees hfell
    refine ⟨fun ha => hfell ?_, Bool.eq_false_iff.mpr fun hf => hfell ?_⟩
    · rw [avoided_eq_nil ha hr, Graph.bestPath_clear]
    · rw [prefer_eq_false hf hr, Graph.bestPath_hard]

end PathRequest

/-- **Calls carry their requests.** A checked path query makes one call, with the request's ends and
degrees; an engine reads the avoided entities from it, in order and in the place for their kind, and
the required sources where there are some. The search goes through avoided entities only where the
request has some and does not forbid them. A checked network query makes one call, with the numbers
of its request, and an engine reads its members from it, in order and in the place for their kind.
Once the reading of the stopwatches has been taken neither makes a call. -/
theorem calls_carry_requests (now : Nat) (timers : Timers) :
    (∀ (server : Server) (params : PathParams) (r : PathRequest),
      PathRequest.ofParams server params = .ok r → ∃ ends filter,
        (r.exchange now timers).calls =
            (if timers.isConcluded then [] else [.path ends r.maxDegrees filter]) ∧
          r.CarriedBy ends filter) ∧
    (∀ (params : NetworkParams) (r : NetworkRequest), NetworkRequest.ofParams params = .ok r →
      ∃ kind members list,
        (r.exchange now timers).calls =
            (if timers.isConcluded then []
              else [.network kind members r.maxDegrees r.buildOut r.maxEntities]) ∧
          IdentifierList.ofText? members = some list ∧ list.Holds kind r.entities) := by
  constructor
  · intro server params r hr
    have huniform := PathRequest.ofParams_uniform hr
    obtain ⟨ends, hcall, _, hends⟩ := huniform.call_ok
    exact ⟨ends, r.filter, PathRequest.calls_exchange hcall now timers,
      huniform.carriedBy hends⟩
  · intro params r hr
    obtain ⟨kind, hkind, hall⟩ := NetworkRequest.ofParams_uniform hr
    obtain ⟨list, hread, hholds⟩ := Arguments.ofText?_identifiersText hall
    have hcall : r.call? = some (.network kind (Arguments.identifiersText kind r.entities)
        r.maxDegrees r.buildOut r.maxEntities) := by
      rw [NetworkRequest.call?, hkind, Option.map_some]
    exact ⟨kind, _, list, NetworkRequest.calls_exchange hcall now timers, hread, hholds⟩

/-- Ends named by records with a colon, a quote and a control character in their ids. -/
def oddEnds : PathParams where
  origin := some "\x7b\"src\":\"A:B\",\"id\":\"1\\\"2\"\x7d"
  target := some "\x7b\"src\":\"A\",\"id\":\"\\u0001x\"\x7d"
  avoid := ["C:D:E", " A:\\ "]
  sources := ["CUSTOMERS"]

theorem oddEnds_carried :
    ∃ r, PathRequest.ofParams (Server.make ["CUSTOMERS"] [] none) oddEnds = .ok r ∧
      ∃ ends filter, (r.exchange 0 (.started 0 ["overall"])).calls =
          [.path ends r.maxDegrees filter] ∧
        r.CarriedBy ends filter := by
  have hchecked : PathRequest.ofParams (Server.make ["CUSTOMERS"] [] none) oddEnds =
      .ok ⟨.record ⟨"A:B", "1\"2"⟩, .record ⟨"A", "\x01x"⟩, 3,
        some [.record ⟨"C", "D:E"⟩, .record ⟨"A", "\\"⟩], false, some ["CUSTOMERS"], false⟩ := by
    decide +kernel
  exact ⟨_, hchecked,
    (calls_carry_requests 0 (.started 0 ["overall"])).1 _ _ _ hchecked⟩

end Linkage
