import Linkage.Proofs.Engine.Documents
import Linkage.Proofs.Engine.WrittenPath
import Linkage.Proofs.Graph.Between

namespace Linkage

theorem getLast?_filter {α β : Type} [BEq β] [LawfulBEq β] {f : α → β} {items : List α} {a : α}
    (h : (items.map f).Nodup) (ha : a ∈ items) :
    (items.filter fun b => f b == f a).getLast? = some a := by
  have hne : (items.filter fun b => f b == f a) ≠ [] :=
    List.ne_nil_of_mem (List.mem_filter.mpr ⟨ha, beq_self_eq_true _⟩)
  obtain ⟨hlast, heq⟩ := List.mem_filter.mp (List.getLast_mem hne)
  rw [List.getLast?_eq_some_getLast hne, List.inj_on_of_nodup_map h hlast ha (beq_iff_eq.mp heq)]

namespace PathResult

variable {ids : List Int64} {entities : List EntityEntry}

theorem place_getElem (h : ids.Nodup) {i : Nat} (hi : i < ids.length) : place ids ids[i] = i := by
  have hmap : (ids.zipIdx.map Prod.fst).Nodup := by rwa [List.zipIdx_map_fst]
  have hmem : (ids[i], i) ∈ ids.zipIdx :=
    List.mk_mem_zipIdx_iff_getElem?.mpr (List.getElem?_eq_getElem hi)
  rw [place, getLast?_filter hmap hmem, Option.map_some, Option.getD_some]

/-- Entities that are listed along a path stay in that order. -/
theorem inPathOrder_eq (h : entities.map EntityEntry.id = ids) (hdistinct : ids.Nodup) :
    inPathOrder ids entities = entities := by
  -- The places increase along the path, so sorting by them moves nothing.
  have hplaces : ids.Pairwise fun a b => place ids a ≤ place ids b := by
    refine List.pairwise_iff_getElem.mpr fun i j hi hj hij => ?_
    rw [place_getElem hdistinct hi, place_getElem hdistinct hj]
    exact Nat.le_of_lt hij
  rw [← h, List.pairwise_map, h] at hplaces
  exact List.mergeSort_of_pairwise (hplaces.imp decide_eq_true)

/-- Where there is no path, all entities are in one place. -/
theorem inPathOrder_nil (entities : List EntityEntry) : inPathOrder [] entities = entities :=
  List.mergeSort_of_pairwise (List.pairwise_of_forall fun _ _ => rfl)

end PathResult

/-! ## What a result tells -/

/-- An entity as a result shows it. A usage that is empty counts as none. -/
structure Entity.ShownAs (e : Entity) (p : EntityProfile) : Prop where
  id : p.id = e.id
  name : p.name = e.name
  records : p.records = e.records
  features : p.features = e.features.map fun values =>
    values.map fun v => { v with usage := if v.usage = some "" then none else v.usage }

theorem Feature.normal_eq :
    normal = fun v => { v with usage := if v.usage = some "" then none else v.usage } := by
  funext v
  obtain ⟨text, usage⟩ := v
  cases usage with
  | none => rfl
  | some usage => by_cases h : usage = "" <;> simp [normal, h]

/-- An entity of a document as a result shows it, with those related to it. -/
structure DocumentEntity.ShownAs (e : DocumentEntity) (p : EntityEntry) : Prop where
  resolved : Entity.ShownAs
    ⟨e.resolved.id, e.resolved.name, e.resolved.records, e.resolved.features⟩ p.resolved
  related : p.related = e.related

theorem DocumentEntity.shownAs (server : Server) (e : DocumentEntity) :
    e.ShownAs (EntityEntry.ofDocumentEntity server e) := by
  refine ⟨⟨rfl, rfl, rfl, ?_⟩, rfl⟩
  rw [EntityEntry.ofDocumentEntity, EntityProfile.ofResolved, Feature.normal_eq]

namespace Graph

/-- An entry shows an entity of the fixture, and all that it is related to. -/
def Shows (g : Graph) (e : EntityEntry) : Prop :=
  (∃ f ∈ g.fixture.entities, f.ShownAs e.resolved) ∧ e.related = g.relatedEntities e.id

/-- A hop that tells the first relationship between its ends. -/
def TellsHop (g : Graph) (ends : Int64 × Int64) (h : Hop) : Prop :=
  ∃ r, g.between? ends.1 ends.2 = some r ∧ h = ⟨ends.1, ends.2, r.matchLevel, r.matchKey⟩

/-- The result of a path call: the path, its entities or only the two ends, and its hops. -/
structure TellsPath (g : Graph) (origin target : Int64) (ids : List Int64) (r : PathResult) :
    Prop where
  path : r.path = ⟨origin, target, ids⟩
  found : r.found = true ↔ ids ≠ []
  listed : r.entities.map EntityEntry.id =
    if ids ≠ [] then ids else if target = origin then [origin] else [origin, target]
  distinct : (r.entities.map EntityEntry.id).Nodup
  shown : ∀ e ∈ r.entities, g.Shows e
  hops : List.Forall₂ g.TellsHop (ids.zip ids.tail) r.hops

/-- The result of a network call, against its document. -/
structure TellsNetwork (g : Graph) (d : Document) (r : NetworkResult) : Prop where
  paths : r.paths = d.paths
  listed : r.entities.map EntityEntry.id = d.entities.map fun e => e.resolved.id
  entities : List.Forall₂ DocumentEntity.ShownAs d.entities r.entities
  shown : ∀ e ∈ r.entities, g.Shows e
  limit : some r.limitReached = d.limitReached

variable {g : Graph} {server : Server} {ids : List Int64}

theorem entity?_eq_some {id : Int64} {e : Entity} (h : g.entity? id = some e) :
    e ∈ g.fixture.entities ∧ e.id = id :=
  ⟨List.mem_of_find?_eq_some h, by simpa using List.find?_some h⟩

theorem mem_listed {d : DocumentEntity} (h : d ∈ ids.filterMap g.documentEntity?) :
    ∃ e ∈ g.fixture.entities,
      d = ⟨⟨e.id, e.name, e.features, e.records⟩, g.relatedEntities e.id⟩ := by
  obtain ⟨id, _, hd⟩ := List.mem_filterMap.mp h
  obtain ⟨e, he, rfl⟩ := Option.map_eq_some_iff.mp hd
  obtain ⟨hmem, rfl⟩ := entity?_eq_some he
  exact ⟨e, hmem, rfl⟩

/-- The entries of listed entities. -/
def entries (g : Graph) (server : Server) (ids : List Int64) : List EntityEntry :=
  (ids.filterMap g.documentEntity?).map (EntityEntry.ofDocumentEntity server)

theorem entries_shown : ∀ e ∈ g.entries server ids, g.Shows e := by
  intro e he
  obtain ⟨d, hd, rfl⟩ := List.mem_map.mp he
  obtain ⟨f, hf, rfl⟩ := mem_listed hd
  have hshown := DocumentEntity.shownAs server
    ⟨⟨f.id, f.name, f.features, f.records⟩, g.relatedEntities f.id⟩
  exact ⟨⟨f, hf, hshown.resolved⟩, hshown.related⟩

theorem entries_id (server : Server) (h : ∀ id ∈ ids, id ∈ g.fixture.ids) :
    (g.entries server ids).map EntityEntry.id = ids := by
  rw [entries, List.map_map]
  exact listed_known h

/-- A hop tells the first relationship between its ends. -/
theorem hop_eq {entities : List EntityEntry} (hdistinct : (entities.map EntityEntry.id).Nodup)
    (hrelated : ∀ e ∈ entities, e.related = g.relatedEntities e.id) {a b : Int64}
    (ha : a ∈ entities.map EntityEntry.id) (hj : g.Joined a b) :
    g.TellsHop (a, b) (PathResult.hop entities a b) := by
  obtain ⟨e, he, rfl⟩ := List.mem_map.mp ha
  obtain ⟨r, hr⟩ := hj.between
  refine ⟨r, hr, ?_⟩
  have hfind : e.related.find? (fun s => s.id == b) =
      some ⟨r.opposite e.id, (g.entity? (r.opposite e.id)).bind Entity.name, r.matchLevel,
        r.matchKey, r.disclosed, r.ambiguous⟩ := by
    rw [hrelated e he, relatedEntities, List.find?_map]
    refine (congrArg (Option.map _) (g.find?_relations e.id b)).trans ?_
    rw [hr]
    rfl
  rw [PathResult.hop, getLast?_filter hdistinct he, Option.bind_some, hfind]

theorem joined_of_mem_zip {ids : List Int64} (h : ids.IsChain g.Joined) :
    ∀ p ∈ ids.zip ids.tail, g.Joined p.1 p.2 := by
  induction h with
  | nil => exact nofun
  | singleton => exact nofun
  | cons_cons hj _ ih => exact List.forall_mem_cons.mpr ⟨hj, ih⟩

theorem hopsAlong_tells {entities : List EntityEntry} (h : entities.map EntityEntry.id = ids)
    (hdistinct : ids.Nodup) (hrelated : ∀ e ∈ entities, e.related = g.relatedEntities e.id)
    (hchain : ids.IsChain g.Joined) :
    List.Forall₂ g.TellsHop (ids.zip ids.tail) (PathResult.hopsAlong entities ids) := by
  rw [PathResult.hopsAlong, List.forall₂_map_right_iff, List.forall₂_same]
  intro p hp
  refine hop_eq (h ▸ hdistinct) hrelated (h ▸ ?_) (joined_of_mem_zip hchain p hp)
  exact (List.of_mem_zip hp).1

/-! ## Calls -/

/-- What is read from the text of a path document. -/
theorem path_read (server : Server) (path : EntityPath) :
    PathResult.read server (Document.text ⟨[path], ids.filterMap g.documentEntity?, none⟩) =
      .ok ⟨path, PathResult.inPathOrder path.entities (g.entries server ids),
        PathResult.hopsAlong (PathResult.inPathOrder path.entities (g.entries server ids))
          path.entities⟩ := by
  rw [PathResult.read, Document.read_ok.mpr (Document.ofText?_text _)]
  rfl

theorem tellsPath_of_walk {origin target : Int64} (hwalk : g.IsWalk origin target ids)
    (hsimple : ids.Nodup) (ho : origin ∈ g.fixture.ids) :
    g.TellsPath origin target ids
      ⟨⟨origin, target, ids⟩, PathResult.inPathOrder ids (g.entries server ids),
        PathResult.hopsAlong (PathResult.inPathOrder ids (g.entries server ids)) ids⟩ := by
  have hlisted := entries_id server (hwalk.known ho)
  have hne := hwalk.ne_nil
  rw [PathResult.inPathOrder_eq hlisted hsimple]
  constructor
  case path => rfl
  case found => simp [PathResult.found, hne]
  case listed => rw [hlisted, if_pos hne]
  case distinct => rwa [hlisted]
  case shown => exact entries_shown
  case hops =>
    exact hopsAlong_tells hlisted hsimple (fun e he => (entries_shown e he).2) hwalk.joined

/-- Without a path there are only the two ends to be shown. -/
theorem tellsPath_of_none {origin target : Int64} (ho : origin ∈ g.fixture.ids)
    (ht : target ∈ g.fixture.ids)
    (hids : ids = if target = origin then [origin] else [origin, target]) :
    g.TellsPath origin target []
      ⟨⟨origin, target, []⟩, PathResult.inPathOrder [] (g.entries server ids),
        PathResult.hopsAlong (PathResult.inPathOrder [] (g.entries server ids)) []⟩ := by
  have hknown : ∀ id ∈ ids, id ∈ g.fixture.ids := by
    rw [hids]
    split <;> simp [ho, ht]
  have hlisted := entries_id server hknown
  rw [PathResult.inPathOrder_nil]
  constructor
  case path => rfl
  case found => simp [PathResult.found]
  case listed => rw [hlisted, hids, if_neg (not_not_intro rfl)]
  case distinct =>
    rw [hlisted, hids]
    split
    · exact List.nodup_singleton _
    · rename_i hne
      simp [Ne.symm hne]
  case shown => exact entries_shown
  case hops => exact .nil

theorem describePath_told (server : Server) {origin target : Int64}
    (ho : origin ∈ g.fixture.ids) (ht : target ∈ g.fixture.ids) (maxDegrees : Nat)
    (rules : PathRules) :
    ∃ r, PathResult.read server (g.describePath origin target maxDegrees rules).text = .ok r ∧
      g.TellsPath origin target ((g.bestPath origin target maxDegrees rules.avoided rules.prefer
        rules.required).getD []) r := by
  refine ⟨_, path_read server _, ?_⟩
  cases hbest : g.bestPath origin target maxDegrees rules.avoided rules.prefer rules.required with
  | none => exact tellsPath_of_none ho ht rfl
  | some ids =>
    obtain ⟨avoided, hs, _⟩ := bestPath_sound hbest
    obtain ⟨hc, hsimple, _⟩ := shortestPath_sound hs
    have hne := hc.walk.ne_nil
    simpa [hne] using tellsPath_of_walk hc.walk hsimple ho

theorem network_read (server : Server) (paths : List EntityPath) (ids : List Int64)
    (limit : Bool) :
    NetworkResult.read server (Document.text ⟨paths, ids.filterMap g.documentEntity?, some limit⟩) =
      .ok ⟨paths, g.entries server ids, limit⟩ := by
  rw [NetworkResult.read, Document.read_ok.mpr (Document.ofText?_text _)]
  rfl

theorem tellsNetwork (paths : List EntityPath) (ids : List Int64) (limit : Bool) :
    g.TellsNetwork ⟨paths, ids.filterMap g.documentEntity?, some limit⟩
      ⟨paths, g.entries server ids, limit⟩ where
  paths := rfl
  listed := List.map_map
  entities := List.forall₂_map_right_iff.mpr (List.forall₂_same.mpr fun e _ => e.shownAs server)
  shown := entries_shown
  limit := rfl

/-- **Results tell what documents say.** A path call that succeeds writes a document from which any
server reads the path that was searched for, its entities in order or the two ends if there is none,
as the fixture has them and with all that are related to them, and a hop for each step, with the
level and the key of the first relationship given between its two entities. A network call that
succeeds writes one from which it reads the paths, the entities in order and the limit. -/
theorem results_tell_documents (server : Server) (g : Graph) (s : Session)
    (wording : Json.Wording) :
    (∀ ends maxDegrees filter after, s.call g (.path ends maxDegrees filter) wording = (0, after) →
      ∃ origin target rules r, g.requireEnds ends = .ok (origin, target) ∧
        g.rules filter wording = .ok rules ∧ PathResult.read server after.buffer = .ok r ∧
        g.TellsPath origin target ((g.bestPath origin target maxDegrees rules.avoided rules.prefer
          rules.required).getD []) r) ∧
    (∀ kind members maxDegrees rounds limit after,
      s.call g (.network kind members maxDegrees rounds limit) wording = (0, after) →
      ∃ d r, g.answer (.network kind members maxDegrees rounds limit) wording = .ok d ∧
        after.buffer = d.text ∧ NetworkResult.read server after.buffer = .ok r ∧
        g.TellsNetwork d r) := by
  constructor
  · intro ends maxDegrees filter after hcall
    obtain ⟨d, hd, rfl⟩ := Session.call_ok.mp hcall
    obtain ⟨origin, target, rules, hends, hrules, rfl⟩ := answer_path_ok.mp hd
    obtain ⟨ho, ht⟩ := requireEnds_known hends
    obtain ⟨r, hr, htold⟩ := describePath_told server ho ht maxDegrees rules
    exact ⟨origin, target, rules, r, hends, hrules, hr, htold⟩
  · intro kind members maxDegrees rounds limit after hcall
    obtain ⟨d, hd, rfl⟩ := Session.call_ok.mp hcall
    obtain ⟨list, _, hd'⟩ := Except.bind_eq_ok.mp hd
    obtain ⟨ids, _, hd'⟩ := Except.bind_eq_ok.mp hd'
    cases hd'
    exact ⟨_, _, hd, rfl, network_read server _ _ _, tellsNetwork _ _ _⟩

/-- Two entities with two relationships between them, given in either order, and a third one. -/
def twiceJoined : Graph where
  fixture :=
    { sources := []
      entities := [⟨2, some "Second \"B\"", [⟨"A:B", "\x01"⟩],
          ⟨[("NAME", [⟨"B", none⟩, ⟨"Bé", some "AKA"⟩]), ("PHONE", [⟨"555", some ""⟩])],
            by decide +kernel⟩⟩,
        ⟨1, none, [], .empty⟩, ⟨3, none, [], .empty⟩]
      relationships := [⟨2, 1, 3, some "+NAME", true, false⟩, ⟨1, 2, 0, none, false, false⟩,
        ⟨3, 2, -1, some "", false, true⟩] }
  accepted := by decide +kernel

theorem twiceJoined_told :
    ∃ after, Session.call twiceJoined ⟨"stale", none⟩ (.path (.entities 1 3) 2 .unfiltered) .plain =
        (0, after) ∧
      ∃ origin target rules r, twiceJoined.requireEnds (.entities 1 3) = .ok (origin, target) ∧
        twiceJoined.rules .unfiltered .plain = .ok rules ∧
        PathResult.read (Server.make [] [("NAME", "RELATIONSHIP")] none) after.buffer = .ok r ∧
        twiceJoined.TellsPath origin target ((twiceJoined.bestPath origin target 2 rules.avoided
          rules.prefer rules.required).getD []) r := by
  have hends : twiceJoined.requireEnds (.entities 1 3) = .ok (1, 3) := rfl
  obtain ⟨d, hd⟩ : ∃ d, twiceJoined.answer (.path (.entities 1 3) 2 .unfiltered) .plain = .ok d :=
    ⟨_, answer_path_ok.mpr ⟨1, 3, _, hends, rfl, rfl⟩⟩
  have hcall : Session.call twiceJoined ⟨"stale", none⟩ (.path (.entities 1 3) 2 .unfiltered)
      .plain = (0, ⟨d.text, none⟩) := Session.call_ok.mpr ⟨d, hd, rfl⟩
  exact ⟨_, hcall, (results_tell_documents (Server.make [] [("NAME", "RELATIONSHIP")] none)
    twiceJoined ⟨"stale", none⟩ .plain).1 _ _ _ _ hcall⟩

end Graph

end Linkage
