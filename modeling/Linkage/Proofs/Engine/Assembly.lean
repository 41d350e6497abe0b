import Linkage.Proofs.Engine.Results
import Mathlib.Data.List.Permutation

/-!
Path results of any document. It may come from any engine: it can have more than one path, list an
entity twice or not at all, and its path can pass an entity twice.
-/

namespace Linkage

/-- The entities of a document as a result shows them, in document order. -/
def Document.entries (server : Server) (d : Document) : List EntityEntry :=
  d.entities.map (EntityEntry.ofDocumentEntity server)

/-- A list in which no item with a property comes after one without it. -/
theorem eq_filter_append {α : Type} {p : α → Bool} {items : List α}
    (h : items.Pairwise fun a b => p b → p a) :
    items = items.filter p ++ items.filter fun a => !p a := by
  induction h with
  | nil => rfl
  | @cons first rest hfirst _ ih =>
    by_cases hp : p first
    · rw [List.filter_cons_of_pos hp, List.filter_cons_of_neg (by simp [hp]), List.cons_append,
        ← ih]
    · -- The first item is without the property, so all of them are.
      have hrest : ∀ a ∈ rest, p a = false := by
        intro a ha
        rw [← Bool.not_eq_true]
        exact fun hpa => hp (hfirst a ha hpa)
      rw [List.filter_cons_of_neg hp, List.filter_eq_nil_iff.mpr (by simpa using hrest),
        List.nil_append]
      symm
      apply List.filter_eq_self.mpr
      exact List.forall_mem_cons.mpr ⟨by simpa using hp, by simpa using hrest⟩

namespace PathResult

variable {ids : List Int64} {entities : List EntityEntry} {id : Int64}

/-! ## Places -/

/-- Entities on the path have places before all others. -/
theorem place_lt (h : id ∈ ids) : place ids id < ids.length := by
  obtain ⟨i, hi, rfl⟩ := List.mem_iff_getElem.mp h
  have hmem : (ids[i], i) ∈ ids.zipIdx.filter fun p => p.1 == ids[i] :=
    List.mem_filter.mpr ⟨List.mk_mem_zipIdx_iff_getElem?.mpr (List.getElem?_eq_getElem hi),
      beq_self_eq_true _⟩
  have hne := List.ne_nil_of_mem hmem
  rw [place, List.getLast?_eq_some_getLast hne, Option.map_some, Option.getD_some]
  exact List.snd_lt_of_mem_zipIdx (List.mem_of_mem_filter (List.getLast_mem hne))

theorem place_eq_length (h : id ∉ ids) : place ids id = ids.length := by
  have hnone : (ids.zipIdx.filter fun p => p.1 == id) = [] := by
    apply List.filter_eq_nil_iff.mpr
    intro p hp heq
    apply h
    rw [← beq_iff_eq.mp heq]
    exact List.fst_mem_of_mem_zipIdx hp
  rw [place, hnone]
  rfl

theorem place_eq_idxOf (hsimple : ids.Nodup) (h : id ∈ ids) : place ids id = ids.idxOf id := by
  have hlt := List.idxOf_lt_length_of_mem h
  rw [← place_getElem hsimple hlt, List.getElem_idxOf hlt]

/-! ## Entities by place -/

theorem place_trans (ids : List Int64) (a b c : EntityEntry)
    (hab : decide (place ids a.id ≤ place ids b.id) = true)
    (hbc : decide (place ids b.id ≤ place ids c.id) = true) :
    decide (place ids a.id ≤ place ids c.id) = true := by
  rw [decide_eq_true_eq] at hab hbc ⊢
  omega

theorem place_total (ids : List Int64) (a b : EntityEntry) :
    (decide (place ids a.id ≤ place ids b.id) || decide (place ids b.id ≤ place ids a.id)) =
      true := by
  rw [Bool.or_eq_true, decide_eq_true_eq, decide_eq_true_eq]
  omega

theorem inPathOrder_pairwise (ids : List Int64) (entities : List EntityEntry) :
    (inPathOrder ids entities).Pairwise fun a b => place ids a.id ≤ place ids b.id :=
  (List.pairwise_mergeSort (place_trans ids) (place_total ids) entities).imp of_decide_eq_true

/-- Entities in one place stay in document order. -/
theorem filter_inPathOrder {p : EntityEntry → Bool} (n : Nat)
    (h : ∀ e ∈ entities, p e → place ids e.id = n) :
    (inPathOrder ids entities).filter p = entities.filter p := by
  apply filter_mergeSort (place_trans ids) (place_total ids)
  intro a ha b hb hpa hpb
  rw [decide_eq_true_eq, h a ha hpa, h b hb hpb]

/-- Entities on the path come first, and the others stay as they are. -/
theorem inPathOrder_eq_append (ids : List Int64) (entities : List EntityEntry) :
    inPathOrder ids entities = (inPathOrder ids entities).filter (fun e => e.id ∈ ids) ++
      entities.filter fun e => e.id ∉ ids := by
  have hfirst : (inPathOrder ids entities).Pairwise fun a b =>
      decide (b.id ∈ ids) = true → decide (a.id ∈ ids) = true := by
    refine (inPathOrder_pairwise ids entities).imp fun {a b} hle hb => ?_
    rw [decide_eq_true_eq] at hb ⊢
    by_contra ha
    have hlt := place_lt hb
    rw [place_eq_length ha] at hle
    omega
  have hothers : ((inPathOrder ids entities).filter fun e => e.id ∉ ids) =
      entities.filter fun e => e.id ∉ ids := by
    apply filter_inPathOrder ids.length
    intro e _ he
    exact place_eq_length (of_decide_eq_true he)
  conv_lhs => rw [eq_filter_append hfirst]
  rw [← hothers]
  simp

end PathResult

/-! ## Hops -/

namespace Document

variable {d : Document}

/-- The entity that tells the hops from a number: the last one that is listed under it, so the only
one if it is listed once. -/
def teller? (d : Document) (id : Int64) : Option DocumentEntity :=
  (d.entities.filter fun e => e.resolved.id == id).getLast?

/-- A hop that tells what a document says of its ends. Level and key are those of the first of the
teller's related entities that is the other end; without a teller, or if none of them is, the hop
has no level and no key. -/
structure TellsHop (d : Document) (ends : Int64 × Int64) (h : Hop) : Prop where
  origin : h.origin = ends.1
  target : h.target = ends.2
  related : ∀ e r, d.teller? ends.1 = some e → (e.related.find? fun r => r.id == ends.2) = some r →
    h.matchLevel = r.matchLevel ∧ h.matchKey = r.matchKey
  unrelated : (∀ e, d.teller? ends.1 = some e → ∀ r ∈ e.related, r.id ≠ ends.2) →
    h.matchLevel = 0 ∧ h.matchKey = none

/-- A hop depends only on the entries for its first end, and in their order. -/
theorem hop_tells {server : Server} {entities : List EntityEntry} (ends : Int64 × Int64)
    (h : (entities.filter fun e => e.id == ends.1) =
      (d.entries server).filter fun e => e.id == ends.1) :
    d.TellsHop ends (PathResult.hop entities ends.1 ends.2) := by
  have htold : ((entities.filter fun e => e.id == ends.1).getLast?.bind fun e =>
      e.related.find? fun r => r.id == ends.2) =
        (d.teller? ends.1).bind fun e => e.related.find? fun r => r.id == ends.2 := by
    rw [h, entries, List.filter_map, List.getLast?_map, Option.bind_map]
    rfl
  unfold PathResult.hop
  dsimp only
  rw [htold]
  cases hfound : (d.teller? ends.1).bind fun e => e.related.find? fun r => r.id == ends.2 with
  | some r =>
    obtain ⟨e, he, hr⟩ := Option.bind_eq_some_iff.mp hfound
    refine ⟨rfl, rfl, ?_, ?_⟩
    · intro e' r' he' hr'
      cases he.symm.trans he'
      cases hr.symm.trans hr'
      exact ⟨rfl, rfl⟩
    · intro hnone
      have hend : r.id = ends.2 := by simpa using List.find?_some hr
      exact absurd hend (hnone e he r (List.mem_of_find?_eq_some hr))
  | none =>
    refine ⟨rfl, rfl, ?_, fun _ => ⟨rfl, rfl⟩⟩
    intro e r he hr
    cases hfound.symm.trans (Option.bind_eq_some_iff.mpr ⟨e, he, hr⟩)

end Document

/-! ## Results -/

namespace PathResult

/-- A result with the parts of a document: its first path, its entities and a hop for each step of
that path. Entities on the path come first, in path order if the path passes none of them twice.
The others, and those with the same number, are in document order. -/
structure Assembles (server : Server) (d : Document) (r : PathResult) : Prop where
  path : d.paths.head? = some r.path
  shown : List.Forall₂ DocumentEntity.ShownAs d.entities (d.entries server)
  entities : r.entities.Perm (d.entries server)
  pathFirst : ∃ onPath, (∀ e ∈ onPath, e.id ∈ r.path.entities) ∧
    r.entities = onPath ++ (d.entries server).filter fun e => e.id ∉ r.path.entities
  sameId : ∀ id, (r.entities.filter fun e => e.id == id) =
    (d.entries server).filter fun e => e.id == id
  pathOrder : r.path.entities.Nodup → (r.entities.filter fun e => e.id ∈ r.path.entities).Pairwise
    fun a b => r.path.entities.idxOf a.id ≤ r.path.entities.idxOf b.id
  hops : List.Forall₂ d.TellsHop (r.path.entities.zip r.path.entities.tail) r.hops

theorem read_ok {server : Server} {raw : String} {r : PathResult} :
    read server raw = .ok r ↔
      ∃ d, Document.ofText? raw = some d ∧ ofDocument? server d = some r := by
  rw [read, Except.bind_eq_ok]
  refine exists_congr fun d => and_congr Document.read_ok ?_
  cases ofDocument? server d <;> simp

theorem ofDocument?_assembles {server : Server} {d : Document} {r : PathResult}
    (h : ofDocument? server d = some r) : r.Assembles server d := by
  obtain ⟨path, hpath, rfl⟩ := Option.map_eq_some_iff.mp h
  have hsame (id : Int64) :
      ((inPathOrder path.entities (d.entries server)).filter fun e => e.id == id) =
        (d.entries server).filter fun e => e.id == id := by
    apply filter_inPathOrder (place path.entities id)
    intro e _ he
    rw [beq_iff_eq.mp he]
  constructor
  case path => exact hpath
  case shown =>
    rw [Document.entries, List.forall₂_map_right_iff, List.forall₂_same]
    exact fun e _ => e.shownAs server
  case entities => exact List.mergeSort_perm _ _
  case pathFirst =>
    refine ⟨_, ?_, inPathOrder_eq_append path.entities (d.entries server)⟩
    intro e he
    exact of_decide_eq_true (List.mem_filter.mp he).2
  case sameId => exact hsame
  case pathOrder =>
    intro hsimple
    apply ((inPathOrder_pairwise path.entities _).filter _).imp_of_mem
    intro a b ha hb hle
    have haPath := of_decide_eq_true (List.mem_filter.mp ha).2
    have hbPath := of_decide_eq_true (List.mem_filter.mp hb).2
    rwa [place_eq_idxOf hsimple haPath, place_eq_idxOf hsimple hbPath] at hle
  case hops =>
    dsimp only
    rw [hopsAlong, List.forall₂_map_right_iff, List.forall₂_same]
    intro ends _
    exact Document.hop_tells ends (hsame ends.1)

/-- **Results assemble documents.** From whatever text a result is read, with whatever classes of
features, it has the first path of the document that the text holds, all of its entities and one
hop for each step, in their order. -/
theorem results_assemble_documents (server : Server) {raw : String} {r : PathResult}
    (h : read server raw = .ok r) :
    ∃ d, Document.ofText? raw = some d ∧ r.Assembles server d := by
  obtain ⟨d, hd, hr⟩ := read_ok.mp h
  exact ⟨d, hd, ofDocument?_assembles hr⟩

/-- A document with two paths. Of the entities on the first one, 3 is listed twice and 4 not at all,
and 1 has two relationships to 2. -/
def untidy : Document where
  paths := [⟨1, 4, [1, 2, 3, 4]⟩, ⟨7, 5, [7, 5]⟩]
  entities :=
    [⟨⟨7, none, .empty, []⟩, []⟩,
      ⟨⟨3, some "First", .empty, []⟩, [⟨4, none, 1, none, false, false⟩]⟩,
      ⟨⟨1, none, .empty, []⟩,
        [⟨2, none, 3, some "+PHONE", false, false⟩, ⟨2, none, 1, some "+NAME", true, false⟩]⟩,
      ⟨⟨5, none, .empty, []⟩, [⟨1, none, 2, none, false, false⟩]⟩,
      ⟨⟨3, some "Second", .empty, []⟩, [⟨4, none, 2, some "+DOB", false, true⟩]⟩,
      ⟨⟨2, none, .empty, []⟩, [⟨1, none, 3, some "+PHONE", false, false⟩]⟩]
  limitReached := none

theorem untidy_assembled :
    ∃ r, read (Server.make [] [] none) untidy.text = .ok r ∧
      r.entities.map (fun e => (e.id, e.resolved.name)) =
        [(1, none), (2, none), (3, some "First"), (3, some "Second"), (7, none), (5, none)] ∧
      r.hops = [⟨1, 2, 3, some "+PHONE"⟩, ⟨2, 3, 0, none⟩, ⟨3, 4, 2, some "+DOB"⟩] ∧
      ∃ d, Document.ofText? untidy.text = some d ∧ r.Assembles (Server.make [] [] none) d := by
  have htext : Document.ofText? untidy.text = some untidy := untidy.ofText?_text
  obtain ⟨r, hr⟩ : ∃ r, ofDocument? (Server.make [] [] none) untidy = some r := ⟨_, rfl⟩
  have hread : read (Server.make [] [] none) untidy.text = .ok r :=
    read_ok.mpr ⟨untidy, htext, hr⟩
  refine ⟨r, hread, ?_, ?_, results_assemble_documents (Server.make [] [] none) hread⟩
  · cases hr
    change (inPathOrder [1, 2, 3, 4] _).map _ = _
    cbv
  · cases hr
    change [hop _ 1 2, hop _ 2 3, hop _ 3 4] = _
    cbv

end PathResult

end Linkage
