import Linkage.Proofs.Request.Checked
import Linkage.Proofs.Text.Tables

/-!
Which parameters make a request, and which fault is told of the others.

* `PathParams.WellFormed`, `NetworkParams.WellFormed`: parameters in which all is in order.
* `PathRequest.Holds`, `NetworkRequest.Holds`: what a request has of its parameters.
* `TellsFirstFault`: a computation that has a result where all is in order, and tells the first
  fault where it is not.
-/

namespace Linkage

/-- An entity of a kind is named by the text. -/
def Kind.Names (kind : Kind) (text : String) : Prop :=
  ∃ id, Identifier.parse? text = some id ∧ id.kind = kind

/-- Parameters of a path query in which all is in order, its entities named in one way. -/
structure PathParams.WellFormed (server : Server) (kind : Kind) (p : PathParams) : Prop where
  origin : ∃ text, p.origin = some text ∧ Text.trim text ≠ "" ∧ kind.Names text
  target : ∃ text, p.target = some text ∧ Text.trim text ≠ "" ∧ kind.Names text
  avoid : ∀ text ∈ p.avoid, kind.Names text
  sources : ∀ text ∈ p.sources, Text.trim text ∈ server.sources
  degrees : 1 ≤ p.maxDegrees.toInt ∧ p.maxDegrees.toInt ≤ 4294967295

/-- Parameters of a network query in which all is in order, its members named in one way. -/
structure NetworkParams.WellFormed (kind : Kind) (p : NetworkParams) : Prop where
  given : p.entities ≠ []
  entities : ∀ text ∈ p.entities, kind.Names text
  degrees : 1 ≤ p.maxDegrees.toInt ∧ p.maxDegrees.toInt ≤ 4294967295
  buildOut : 0 ≤ p.buildOut.toInt ∧ p.buildOut.toInt ≤ 4294967295
  entityLimit : 1 ≤ p.maxEntities.toInt ∧ p.maxEntities.toInt ≤ 4294967295

/-- What a path query has of its parameters: the entities that they name, in order, the set of the
required sources, the numbers and the flags. A list that was not given is not there. -/
structure PathRequest.Holds (r : PathRequest) (p : PathParams) : Prop where
  origin : p.origin.map Identifier.parse? = some (some r.origin)
  target : p.target.map Identifier.parse? = some (some r.target)
  unavoiding : r.avoid = none ↔ p.avoid = []
  avoid : ∀ ids, r.avoid = some ids → p.avoid.map Identifier.parse? = ids.map some
  unrequiring : r.sources = none ↔ p.sources = []
  sources : ∀ codes, r.sources = some codes → codes.Pairwise (· < ·) ∧
    ∀ code, code ∈ codes ↔ code ∈ p.sources.map Text.trim
  degrees : (r.maxDegrees : Int) = p.maxDegrees.toInt
  forbids : r.forbidAvoided = p.forbidAvoided
  raw : r.withRaw = p.withRaw

/-- What a network query has of its parameters. -/
structure NetworkRequest.Holds (r : NetworkRequest) (p : NetworkParams) : Prop where
  entities : p.entities.map Identifier.parse? = r.entities.map some
  degrees : (r.maxDegrees : Int) = p.maxDegrees.toInt
  buildOut : (r.buildOut : Int) = p.buildOut.toInt
  entityLimit : (r.maxEntities : Int) = p.maxEntities.toInt
  raw : r.withRaw = p.withRaw

/-! ## What a request has -/

theorem Limit.check_eq_ok {l : Limit} {value : Int64} {n : Nat} : l.check value = .ok n ↔
    (l.least ≤ value.toInt ∧ value.toInt ≤ 4294967295) ∧ (n : Int) = value.toInt := by
  rw [check_eq]
  split
  · rename_i hrange
    have hnonneg : 0 ≤ value.toInt := by
      have hlow := hrange.1
      unfold least at hlow
      split at hlow <;> omega
    rw [Except.ok.injEq]
    omega
  · rename_i hrange
    exact iff_of_false nofun fun h => hrange h.1

theorem eq_of_none_iff {α : Type} {x y : Option α} {p : Prop} (hx : x = none ↔ p)
    (hy : y = none ↔ p) (h : ∀ a b, x = some a → y = some b → a = b) : x = y := by
  cases x with
  | none => exact (hy.mpr (hx.mp rfl)).symm
  | some a =>
    cases y with
    | none => exact hx.mpr (hy.mp rfl)
    | some b => rw [h a b rfl rfl]

namespace PathRequest

variable {server : Server} {p : PathParams} {r : PathRequest} {texts : List String}

/-- Entities are avoided when all those named are named in the same way as the origin. -/
theorem avoided_isOk {origin target : Identifier} {ids : List Identifier} (hsome : texts ≠ [])
    (hids : Identifier.ofParams "x" texts = .ok ids) :
    (∃ avoid, avoided origin target texts = .ok avoid) ↔ ∀ id ∈ ids, id.kind = origin.kind := by
  have hall : (ids.all fun id => id.kind == origin.kind) = true ↔
      ∀ id ∈ ids, id.kind = origin.kind := by
    simp only [List.all_eq_true, beq_iff_eq]
  rw [avoided, if_neg fun hempty => hsome (List.isEmpty_iff.mp hempty), hids, ← hall]
  constructor
  · rintro ⟨avoid, h⟩
    obtain ⟨_, ⟨⟩, h⟩ := Except.bind_eq_ok.mp h
    split at h
    · assumption
    · cases h
  · intro h
    exact ⟨some ids, Except.bind_eq_ok.mpr ⟨ids, rfl, if_pos h⟩⟩

theorem requiredSources_holds {sources : Option (List String)}
    (h : requiredSources server texts = .ok sources) : (sources = none ↔ texts = []) ∧
      ∀ codes, sources = some codes → codes.Pairwise (· < ·) ∧
        ∀ code, code ∈ codes ↔ code ∈ texts.map Text.trim := by
  unfold requiredSources at h
  split at h
  · rename_i hempty
    cases h
    exact ⟨iff_of_true rfl (List.isEmpty_iff.mp hempty), nofun⟩
  · rename_i hsome
    split at h
    · cases h
    · cases h
      refine ⟨iff_of_false nofun fun hnil => hsome (List.isEmpty_iff.mpr hnil), ?_⟩
      rintro _ ⟨⟩
      exact ⟨Text.Sorted.increasing_ofList _, fun code => Text.Sorted.mem_ofList⟩

theorem avoided_holds {origin target : Identifier} {avoid : Option (List Identifier)}
    (h : avoided origin target texts = .ok avoid) : (avoid = none ↔ texts = []) ∧
      ∀ ids, avoid = some ids → texts.map Identifier.parse? = ids.map some := by
  unfold avoided at h
  split at h
  · rename_i hempty
    cases h
    exact ⟨iff_of_true rfl (List.isEmpty_iff.mp hempty), nofun⟩
  · rename_i hsome
    obtain ⟨ids, hids, h⟩ := Except.bind_eq_ok.mp h
    split at h
    · cases h
      refine ⟨iff_of_false nofun fun hnil => hsome (List.isEmpty_iff.mpr hnil), ?_⟩
      rintro _ ⟨⟩
      exact Identifier.ofParams_eq_ok.mp hids
    · cases h

theorem holds_of_ofParams (h : ofParams server p = .ok r) : r.Holds p := by
  obtain ⟨horigin, htarget, _, havoid, hsources, hdegrees, hforbid, hraw⟩ := ofParams_eq_ok.mp h
  obtain ⟨a, ha, _, horigin⟩ := endpoint_eq_ok.mp horigin
  obtain ⟨b, hb, _, htarget⟩ := endpoint_eq_ok.mp htarget
  obtain ⟨hunavoiding, havoid⟩ := avoided_holds havoid
  obtain ⟨hunrequiring, hsources⟩ := requiredSources_holds hsources
  exact ⟨by rw [ha, Option.map_some, horigin], by rw [hb, Option.map_some, htarget], hunavoiding,
    havoid, hunrequiring, hsources, (Limit.check_eq_ok.mp hdegrees).2, hforbid.symm, hraw.symm⟩

/-- No two requests have the same of the parameters. -/
theorem Holds.unique {r' : PathRequest} (h : r.Holds p) (h' : r'.Holds p) : r = r' := by
  obtain ⟨origin, target, maxDegrees, avoid, forbidAvoided, sources, withRaw⟩ := r
  obtain ⟨origin', target', maxDegrees', avoid', forbidAvoided', sources', withRaw'⟩ := r'
  have horigin : origin = origin' := by
    simpa using h.origin.symm.trans h'.origin
  have htarget : target = target' := by
    simpa using h.target.symm.trans h'.target
  have hdegrees : maxDegrees = maxDegrees' :=
    Int.ofNat_inj.mp (h.degrees.trans h'.degrees.symm)
  have havoid : avoid = avoid' := by
    apply eq_of_none_iff h.unavoiding h'.unavoiding
    intro ids ids' hids hids'
    exact List.map_injective_iff.mpr (fun _ _ => Option.some.inj)
      ((h.avoid ids hids).symm.trans (h'.avoid ids' hids'))
  have hsources : sources = sources' := by
    apply eq_of_none_iff h.unrequiring h'.unrequiring
    intro codes codes' hcodes hcodes'
    obtain ⟨hordered, hmem⟩ := h.sources codes hcodes
    obtain ⟨hordered', hmem'⟩ := h'.sources codes' hcodes'
    apply Text.Sorted.eq_of_mem_iff hordered hordered'
    intro code
    rw [hmem, hmem']
  have hforbids : forbidAvoided = forbidAvoided' := h.forbids.trans h'.forbids.symm
  have hraw : withRaw = withRaw' := h.raw.trans h'.raw.symm
  rw [horigin, htarget, hdegrees, havoid, hsources, hforbids, hraw]

end PathRequest

namespace NetworkRequest

variable {p : NetworkParams} {r : NetworkRequest}

theorem holds_of_ofParams (h : ofParams p = .ok r) : r.Holds p := by
  obtain ⟨_, hentities, _, hdegrees, hbuildOut, hentityLimit, hraw⟩ := ofParams_eq_ok.mp h
  exact ⟨Identifier.ofParams_eq_ok.mp hentities, (Limit.check_eq_ok.mp hdegrees).2,
    (Limit.check_eq_ok.mp hbuildOut).2, (Limit.check_eq_ok.mp hentityLimit).2, hraw.symm⟩

theorem Holds.unique {r' : NetworkRequest} (h : r.Holds p) (h' : r'.Holds p) : r = r' := by
  obtain ⟨entities, maxDegrees, buildOut, maxEntities, withRaw⟩ := r
  obtain ⟨entities', maxDegrees', buildOut', maxEntities', withRaw'⟩ := r'
  have hentities : entities = entities' :=
    List.map_injective_iff.mpr (fun _ _ => Option.some.inj) (h.entities.symm.trans h'.entities)
  have hdegrees : maxDegrees = maxDegrees' := Int.ofNat_inj.mp (h.degrees.trans h'.degrees.symm)
  have hbuildOut : buildOut = buildOut' := Int.ofNat_inj.mp (h.buildOut.trans h'.buildOut.symm)
  have hentityLimit : maxEntities = maxEntities' :=
    Int.ofNat_inj.mp (h.entityLimit.trans h'.entityLimit.symm)
  have hraw : withRaw = withRaw' := h.raw.trans h'.raw.symm
  rw [hentities, hdegrees, hbuildOut, hentityLimit, hraw]

end NetworkRequest

/-! ## Well-formed parameters -/

theorem ParamCheck.ofEnd_passes {name : String} {value : Option String} :
    (∀ check ∈ ofEnd name value, check.Passes) ↔
      ∃ text id, value = some text ∧ Text.trim text ≠ "" ∧ Identifier.parse? text = some id := by
  constructor
  · intro h
    obtain ⟨hgiven, hnamed⟩ := List.forall_mem_cons.mp h
    obtain ⟨text, rfl, hvisible⟩ := hgiven
    obtain ⟨id, hid⟩ := hnamed _ (List.mem_singleton.mpr rfl)
    rw [Identifier.parse?_trim] at hid
    exact ⟨text, id, rfl, hvisible, hid⟩
  · rintro ⟨text, id, rfl, hvisible, hid⟩
    refine List.forall_mem_cons.mpr ⟨⟨text, rfl, hvisible⟩, List.forall_mem_singleton.mpr ?_⟩
    exact ⟨id, (Identifier.parse?_trim text).trans hid⟩

/-- Texts name entities of one kind when each names one, and all of these are of the kind. -/
theorem Kind.names_iff {kind : Kind} {parameter : String} {texts : List String} :
    (∀ text ∈ texts, kind.Names text) ↔
      (∀ check ∈ texts.map (ParamCheck.named parameter), check.Passes) ∧
        ∀ id ∈ Identifier.namedBy texts, id.kind = kind := by
  constructor
  · intro h
    constructor
    · rw [List.forall_mem_map]
      intro text htext
      obtain ⟨id, hid, _⟩ := h text htext
      exact ⟨id, hid⟩
    · intro id hid
      obtain ⟨text, htext, hid⟩ := List.mem_filterMap.mp hid
      obtain ⟨id', hid', hkind⟩ := h text htext
      rw [hid] at hid'
      cases hid'
      exact hkind
  · rintro ⟨hnamed, hkind⟩ text htext
    obtain ⟨id, hid⟩ := List.forall_mem_map.mp hnamed text htext
    exact ⟨id, hid, hkind id (List.mem_filterMap.mpr ⟨text, htext, hid⟩)⟩

/-- The parameters that pass all checks are those in which all is in order. -/
theorem PathParams.checks_pass {server : Server} {p : PathParams} :
    (∀ check ∈ p.checks server, check.Passes) ↔ ∃ kind, p.WellFormed server kind := by
  simp only [checks, List.append_assoc, List.forall_mem_append, List.forall_mem_singleton,
    ParamCheck.ofEnd_passes]
  constructor
  · rintro ⟨⟨a, origin, ha, hvisible, horigin⟩, ⟨b, target, hb, hvisible', htarget⟩, _, hnamed,
      halike, hsources, hdegrees⟩
    rw [ends_eq ha hb horigin htarget] at halike
    have hsame := ParamCheck.alike_passes.mp halike
    refine ⟨origin.kind, ?_, ?_, ?_, ?_, hdegrees⟩
    · exact ⟨a, ha, hvisible, origin, horigin, rfl⟩
    · exact ⟨b, hb, hvisible', target, htarget, hsame target (by simp)⟩
    · exact Kind.names_iff.mpr ⟨hnamed, fun id hid => hsame id (by simp [hid])⟩
    · intro text htext
      exact hsources _ (List.mem_map_of_mem (List.mem_map_of_mem htext))
  · rintro ⟨kind, ⟨a, ha, hvisible, origin, horigin, hkind⟩,
      ⟨b, hb, hvisible', target, htarget, hkind'⟩, havoid, hsources, hdegrees⟩
    obtain ⟨hnamed, hall⟩ := Kind.names_iff.mp havoid
    have hends : ∀ id ∈ p.ends, id.kind = kind := by
      rw [ends_eq ha hb horigin htarget]
      simp [hkind, hkind']
    refine ⟨⟨a, origin, ha, hvisible, horigin⟩, ⟨b, target, hb, hvisible', htarget⟩,
      ⟨kind, hends⟩, hnamed, ⟨kind, ?_⟩, ?_, hdegrees⟩
    · exact List.forall_mem_append.mpr ⟨hends, hall⟩
    · exact List.forall_mem_map.mpr (List.forall_mem_map.mpr hsources)

theorem NetworkParams.checks_pass {p : NetworkParams} :
    (∀ check ∈ p.checks, check.Passes) ↔ ∃ kind, p.WellFormed kind := by
  simp only [checks, List.append_assoc, List.forall_mem_append, List.forall_mem_singleton,
    List.forall_mem_cons]
  constructor
  · rintro ⟨hgiven, hnamed, ⟨kind, hkind⟩, hdegrees, hbuildOut, hentityLimit⟩
    have hentities := Kind.names_iff.mpr ⟨hnamed, hkind⟩
    exact ⟨kind, hgiven, hentities, hdegrees, hbuildOut, hentityLimit⟩
  · rintro ⟨kind, hgiven, hentities, hdegrees, hbuildOut, hentityLimit⟩
    obtain ⟨hnamed, hkind⟩ := Kind.names_iff.mp hentities
    exact ⟨hgiven, hnamed, ⟨kind, hkind⟩, hdegrees, hbuildOut, hentityLimit⟩

/-! ## The first fault -/

/-- A result is had where all is in order, and is then the one that has what it should have of the
parameters; where not all is in order the fault is that of the first check that fails. -/
structure TellsFirstFault {α : Type} (x : Except Fault α) (checks : List ParamCheck)
    (wellFormed : Prop) (holds : α → Prop) : Prop where
  accepts : (∃ r, x = .ok r) ↔ wellFormed
  keeps : ∀ r, x = .ok r ↔ wellFormed ∧ holds r
  tells : ∀ fault, x = .error fault ↔
    ∃ check, FirstFails ParamCheck.Passes checks check ∧ fault = check.fault

theorem TellsFirstFault.of_makes {α : Type} {x : Except Fault α} {checks : List ParamCheck}
    {wellFormed : Prop} {holds : α → Prop} (hmakes : Makes checks x)
    (hpass : (∀ check ∈ checks, check.Passes) ↔ wellFormed) (hholds : ∀ r, x = .ok r → holds r)
    (hunique : ∀ r r', holds r → holds r' → r = r') :
    TellsFirstFault x checks wellFormed holds := by
  have haccepts : (∃ r, x = .ok r) ↔ wellFormed := hmakes.ok_iff.trans hpass
  refine ⟨haccepts, ?_, hmakes.error_iff⟩
  intro r
  constructor
  · intro hr
    exact ⟨haccepts.mp ⟨r, hr⟩, hholds r hr⟩
  · rintro ⟨hwell, hr⟩
    -- there is some result, and it can only be this one
    obtain ⟨r', hr'⟩ := haccepts.mpr hwell
    rwa [hunique r r' hr (hholds r' hr')]

/-- **The first fault is told.** The parameters of a path query make a request when both ends are
given and name entities, these and all avoided entities are named in one way, the server knows the
required sources, and the degrees are in range; the request then has what they say. Otherwise the
fault is that of the first check that fails. It is the same for a network query. Where some avoided
entity is given there is a first one: that they are named in the same way as the ends can be seen by
comparing it to the others and to the origin. -/
theorem requests_tell_first_fault :
    (∀ (server : Server) (p : PathParams),
      TellsFirstFault (PathRequest.ofParams server p) (p.checks server)
        (∃ kind, p.WellFormed server kind) (PathRequest.Holds · p)) ∧
    (∀ p : NetworkParams,
      TellsFirstFault (NetworkRequest.ofParams p) p.checks (∃ kind, p.WellFormed kind)
        (NetworkRequest.Holds · p)) ∧
    ∀ (origin target : Identifier) (texts : List String) (ids : List Identifier),
      texts ≠ [] → Identifier.ofParams "x" texts = .ok ids →
        ∃ first, ids[0]? = some first ∧
          ((∃ avoid, PathRequest.avoided origin target texts = .ok avoid) ↔
            Identifier.areConsistent ids = true ∧ first.kind = origin.kind) := by
  refine ⟨?_, ?_, ?_⟩
  · intro server p
    exact .of_makes (PathRequest.ofParams_makes server p) PathParams.checks_pass
      (fun _ => PathRequest.holds_of_ofParams) fun _ _ => PathRequest.Holds.unique
  · intro p
    exact .of_makes (NetworkRequest.ofParams_makes p) NetworkParams.checks_pass
      (fun _ => NetworkRequest.holds_of_ofParams) fun _ _ => NetworkRequest.Holds.unique
  · intro origin target texts ids hsome hids
    obtain ⟨first, rest, rfl⟩ :=
      List.exists_cons_of_ne_nil (Identifier.ofParams_ne_nil hids hsome)
    refine ⟨first, rfl, ?_⟩
    rw [PathRequest.avoided_isOk hsome hids, List.forall_mem_cons, Identifier.areConsistent]
    simp only [List.all_eq_true, beq_iff_eq]
    constructor
    · rintro ⟨hfirst, hrest⟩
      refine ⟨?_, hfirst⟩
      intro id hid
      rw [hrest id hid, hfirst]
    · rintro ⟨hrest, hfirst⟩
      refine ⟨hfirst, ?_⟩
      intro id hid
      rw [hrest id hid, hfirst]

/-- Two ends, and faults in the avoided entities, the sources and the degrees. -/
def manyFaults : PathParams where
  origin := some " 1 "
  target := some "2"
  avoid := ["3", "zz", "A:B"]
  sources := ["NOWHERE"]
  maxDegrees := 0

theorem manyFaults_told :
    (∃ check,
      FirstFails ParamCheck.Passes (manyFaults.checks (Server.make ["CUSTOMERS"] [] none)) check ∧
        .malformedIdentifier "x" "zz" = check.fault) ∧
    ∃ first, [Identifier.entity 3, .record ⟨"A", "B"⟩][0]? = some first ∧
      ((∃ avoid, PathRequest.avoided (.entity 1) (.entity 2) ["3", "A:B"] = .ok avoid) ↔
        Identifier.areConsistent [.entity 3, .record ⟨"A", "B"⟩] = true ∧
          first.kind = Kind.entity) := by
  constructor
  · apply ((requests_tell_first_fault.1 _ manyFaults).tells _).mp
    decide +kernel
  · apply requests_tell_first_fault.2.2
    · exact List.cons_ne_nil _ _
    · decide +kernel

end Linkage
