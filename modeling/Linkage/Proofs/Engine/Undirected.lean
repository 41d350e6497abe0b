import Linkage.Proofs.Engine.Results

/-!
Relationships as their two entities show them.

* `Graph.Lists`: what the related entities of an entity have to be, and in what order.
* `towards_eq`: what one entity shows towards another does not depend on which of the two it is.
* `relationships_have_no_direction`: no part of the engine tells the two ends apart.
-/

namespace Linkage

section Sorting

variable {α : Type} {key : α → Int64} {s : α → α → Prop} {items : List α}

/-- A list that is ordered by a key, and otherwise within each key, is ordered by both. -/
theorem pairwise_by_key (hkey : items.Pairwise fun a b => key a ≤ key b)
    (hties : ∀ k, (items.filter fun a => key a == k).Pairwise s) :
    items.Pairwise fun a b => key a < key b ∨ key a = key b ∧ s a b := by
  induction hkey with
  | nil => exact .nil
  | @cons first rest hfirst _ ih =>
    apply List.Pairwise.cons
    · intro b hb
      apply (Int64.lt_or_eq_of_le (hfirst b hb)).imp_right
      intro heq
      -- the first item stands before all others with its key
      have htie := hties (key first)
      rw [List.filter_cons_of_pos (by simp), List.pairwise_cons] at htie
      exact ⟨heq, htie.1 b (List.mem_filter.mpr ⟨hb, beq_iff_eq.mpr heq.symm⟩)⟩
    · apply ih
      intro k
      exact (hties k).sublist ((List.sublist_cons_self first rest).filter _)

theorem zipIdx_ordered (items : List α) : items.zipIdx.Pairwise fun a b => a.2 < b.2 := by
  have hplaces : (items.zipIdx.map Prod.snd).Pairwise (· < ·) := by
    rw [List.zipIdx_map_snd]
    exact List.pairwise_lt_range'
  exact List.pairwise_map.mp hplaces

end Sorting

/-- What two entities tell of a relationship between them. -/
abbrev Facts := Int32 × Option String × Bool × Bool

def Relationship.facts (r : Relationship) : Facts :=
  (r.matchLevel, r.matchKey, r.disclosed, r.ambiguous)

def Related.facts (e : Related) : Facts := (e.matchLevel, e.matchKey, e.disclosed, e.ambiguous)

theorem Relationship.joins_comm (r : Relationship) (a b : Int64) : r.joins a b = r.joins b a := by
  rw [joins, joins, Bool.or_comm]

/-- What an entity of a document shows towards another entity, in document order. -/
def DocumentEntity.towards (d : DocumentEntity) (b : Int64) : List Facts :=
  (d.related.filter fun e => e.id == b).map Related.facts

/-- An entry among related entities, the relationship it stands for, and the place at which that is
given. -/
structure Showing where
  entry : Related
  relationship : Relationship
  place : Nat

namespace Graph

/-- An entry that shows a relationship to one of its ends: the other end is known, is another
entity, and is shown with its own name. -/
structure ShowsTo (g : Graph) (a : Int64) (r : Relationship) (e : Related) : Prop where
  ends : (r.left = a ∧ r.right = e.id) ∨ (r.left = e.id ∧ r.right = a)
  other : e.id ≠ a
  known : ∃ b ∈ g.fixture.entities, b.id = e.id ∧ e.name = b.name
  facts : e.facts = r.facts

/-- The related entities of `a`: one entry for each relationship that has `a` as an end, and no
others, by the numbers of the other ends and then in the order of the fixture. -/
def Lists (g : Graph) (a : Int64) (related : List Related) : Prop :=
  ∃ shown : List Showing, shown.map Showing.entry = related ∧
    (shown.map fun s => (s.relationship, s.place)).Perm
      (g.fixture.relationships.zipIdx.filter fun p => p.1.left = a ∨ p.1.right = a) ∧
    (∀ s ∈ shown, g.ShowsTo a s.relationship s.entry) ∧
    shown.Pairwise fun s t => s.entry.id < t.entry.id ∨ s.entry.id = t.entry.id ∧ s.place < t.place

variable {g : Graph} {a b : Int64}

/-! ## Order -/

/-- The relationships of an entity with their places, sorted as the entity shows them. -/
def placed (g : Graph) (a : Int64) : List (Relationship × Nat) :=
  (g.fixture.relationships.zipIdx.filter fun p => p.1.touches a).mergeSort fun p q =>
    decide (p.1.opposite a ≤ q.1.opposite a)

theorem placed_perm (g : Graph) (a : Int64) : (g.placed a).Perm
    (g.fixture.relationships.zipIdx.filter fun p => p.1.left = a ∨ p.1.right = a) := by
  have htouches : (fun p : Relationship × Nat => p.1.touches a) =
      fun p => decide (p.1.left = a ∨ p.1.right = a) := by
    funext p
    simp [Relationship.touches, Bool.beq_eq_decide_eq]
  rw [placed, htouches]
  exact List.mergeSort_perm _ _

theorem placed_relations (g : Graph) (a : Int64) : (g.placed a).map Prod.fst = g.relations a := by
  have hfirst : (g.fixture.relationships.zipIdx.filter fun p => p.1.touches a).map Prod.fst =
      g.fixture.relationships.filter fun r => r.touches a := by
    conv_rhs => rw [← List.zipIdx_map_fst 0 g.fixture.relationships, List.filter_map]
    rfl
  rw [placed, relations, ← hfirst]
  exact List.map_mergeSort fun _ _ _ _ => rfl

theorem mem_placed {p : Relationship × Nat} (h : p ∈ g.placed a) :
    p.1 ∈ g.fixture.relationships ∧ p.1.touches a = true := by
  have hmem : p.1 ∈ g.relations a := by
    rw [← placed_relations]
    exact List.mem_map_of_mem h
  exact mem_relations.mp hmem

/-- Relationships come by the number of the other entity, and for one of these as the fixture has
them. -/
theorem placed_ordered (g : Graph) (a : Int64) : (g.placed a).Pairwise fun p q =>
    p.1.opposite a < q.1.opposite a ∨ p.1.opposite a = q.1.opposite a ∧ p.2 < q.2 := by
  have htrans (p q r : Relationship × Nat) := Relationship.opposite_trans a p.1 q.1 r.1
  have htotal (p q : Relationship × Nat) := Relationship.opposite_total a p.1 q.1
  apply pairwise_by_key
  · exact (List.pairwise_mergeSort htrans htotal _).imp of_decide_eq_true
  · -- the sort is stable, so relationships with one other end stay as they are given
    intro k
    rw [placed, filter_mergeSort htrans htotal]
    · exact ((zipIdx_ordered g.fixture.relationships).filter _).filter _
    · intro p _ q _ hp hq
      rw [beq_iff_eq.mp hp, beq_iff_eq.mp hq]
      exact decide_eq_true (Int64.le_refl k)

/-! ## Entries -/

/-- The entry for a relationship of an entity. -/
def entryOf (g : Graph) (a : Int64) (r : Relationship) : Related where
  id := r.opposite a
  name := (g.entity? (r.opposite a)).bind Entity.name
  matchLevel := r.matchLevel
  matchKey := r.matchKey
  disclosed := r.disclosed
  ambiguous := r.ambiguous

theorem relatedEntities_eq (g : Graph) (a : Int64) :
    g.relatedEntities a = (g.relations a).map (g.entryOf a) := rfl

/-- Each entry shows the other end, whichever end that is. -/
theorem entryOf_shows {r : Relationship} (hr : r ∈ g.fixture.relationships)
    (ht : r.touches a = true) : g.ShowsTo a r (g.entryOf a r) := by
  have hends := Relationship.joins_iff.mp ((opposite_iff_joins hr).mp ⟨ht, rfl⟩)
  have hjoined : g.Joined a (r.opposite a) := ⟨r, hr, hends⟩
  constructor
  case ends => exact hends
  case other =>
    intro hsame
    change r.opposite a = a at hsame
    rw [hsame] at hends
    apply (g.ends_known hr).2.2
    rcases hends with ⟨hl, hr⟩ | ⟨hl, hr⟩ <;> exact hl.trans hr.symm
  case known =>
    obtain ⟨e, he⟩ := Option.isSome_iff_exists.mp (g.entity?_isSome.mpr hjoined.known)
    obtain ⟨hmem, hid⟩ := entity?_eq_some he
    refine ⟨e, hmem, hid, ?_⟩
    rw [entryOf, he, Option.bind_some]
  case facts => rfl

theorem relatedEntities_lists (g : Graph) (a : Int64) : g.Lists a (g.relatedEntities a) := by
  refine ⟨(g.placed a).map fun p => ⟨g.entryOf a p.1, p.1, p.2⟩, ?_, ?_, ?_, ?_⟩
  · rw [relatedEntities_eq, ← placed_relations, List.map_map, List.map_map]
    rfl
  · rw [List.map_map]
    change ((g.placed a).map id).Perm _
    rw [List.map_id]
    exact g.placed_perm a
  · intro s hs
    obtain ⟨p, hp, rfl⟩ := List.mem_map.mp hs
    obtain ⟨hr, ht⟩ := mem_placed hp
    exact entryOf_shows hr ht
  · exact List.pairwise_map.mpr (g.placed_ordered a)

/-! ## Documents -/

theorem documentEntity?_eq_some {d : DocumentEntity} (h : g.documentEntity? a = some d) :
    d.resolved.id = a ∧ d.related = g.relatedEntities a := by
  obtain ⟨e, _, rfl⟩ := Option.map_eq_some_iff.mp h
  exact ⟨rfl, rfl⟩

theorem documentEntity?_known (h : a ∈ g.fixture.ids) : ∃ d, g.documentEntity? a = some d := by
  obtain ⟨e, he⟩ := Option.isSome_iff_exists.mp (g.entity?_isSome.mpr h)
  exact ⟨_, by rw [documentEntity?, he, Option.map_some]⟩

/-- A document shows each of its entities in the one way there is. -/
theorem answer_documentEntity? {c : Call} {wording : Json.Wording} {document : Document}
    {d : DocumentEntity}
    (h : g.answer c wording = .ok document) (hd : d ∈ document.entities) :
    g.documentEntity? d.resolved.id = some d := by
  obtain ⟨ids, hids⟩ : ∃ ids : List Int64, document.entities = ids.filterMap g.documentEntity? := by
    cases c with
    | path ends maxDegrees filter =>
      obtain ⟨_, _, _, _, _, rfl⟩ := answer_path_ok.mp h
      exact ⟨_, rfl⟩
    | network kind members maxDegrees rounds limit =>
      obtain ⟨_, _, h⟩ := Except.bind_eq_ok.mp h
      obtain ⟨_, _, h⟩ := Except.bind_eq_ok.mp h
      cases h
      exact ⟨_, rfl⟩
  rw [hids] at hd
  obtain ⟨id, _, hshown⟩ := List.mem_filterMap.mp hd
  rw [(documentEntity?_eq_some hshown).1, hshown]

/-- Towards another entity, an entity shows the relationships between the two as they are given. -/
theorem towards_eq {d : DocumentEntity} (h : d.related = g.relatedEntities a) (b : Int64) :
    d.towards b = (g.fixture.relationships.filter fun r => r.joins a b).map Relationship.facts := by
  rw [DocumentEntity.towards, h, relatedEntities_eq, List.filter_map, List.map_map,
    ← filter_relations]
  rfl

/-- **Relationships have no direction.** Every entity is shown with one entry for each relationship
that it is an end of, whichever end that is, and with no others, ordered by the other ends and then
as the relationships are given; the other ends are known, differ from it and have their own names.
All documents show it so. Of the relationships between them, two entities show the same, in the same
order, and each is a neighbour of the other if the other is one of it. -/
theorem relationships_have_no_direction (g : Graph) :
    (∀ a ∈ g.fixture.ids, ∃ d, g.documentEntity? a = some d ∧ g.Lists a d.related) ∧
    (∀ c wording document, g.answer c wording = .ok document → ∀ d ∈ document.entities,
      g.documentEntity? d.resolved.id = some d) ∧
    (∀ a b shownA shownB, g.documentEntity? a = some shownA → g.documentEntity? b = some shownB →
      shownA.towards b = shownB.towards a) ∧
    ∀ a b, b ∈ g.neighbours a ↔ a ∈ g.neighbours b := by
  refine ⟨?_, ?_, ?_, ?_⟩
  · intro a ha
    obtain ⟨d, hd⟩ := documentEntity?_known ha
    refine ⟨d, hd, ?_⟩
    rw [(documentEntity?_eq_some hd).2]
    exact g.relatedEntities_lists a
  · intro c wording document h d hd
    exact answer_documentEntity? h hd
  · intro a b shownA shownB ha hb
    rw [towards_eq (documentEntity?_eq_some ha).2, towards_eq (documentEntity?_eq_some hb).2]
    apply congrArg (List.map Relationship.facts)
    apply List.filter_congr
    intro r _
    exact r.joins_comm a b
  · intro a b
    rw [mem_neighbours, mem_neighbours]
    exact ⟨Joined.symm, Joined.symm⟩

/-- The two relationships between 1 and 2 are given in opposite directions. -/
theorem twiceJoined_undirected :
    (∃ d, twiceJoined.documentEntity? 2 = some d ∧ twiceJoined.Lists 2 d.related) ∧
      ∃ shown₁ shown₂ document, twiceJoined.documentEntity? 1 = some shown₁ ∧
        twiceJoined.documentEntity? 2 = some shown₂ ∧
        shown₁.towards 2 = [(3, some "+NAME", true, false), (0, none, false, false)] ∧
        shown₁.towards 2 = shown₂.towards 1 ∧
        twiceJoined.answer (.path (.entities 1 1) 2 .unfiltered) .plain = .ok document ∧
        shown₁ ∈ document.entities ∧
        twiceJoined.documentEntity? shown₁.resolved.id = some shown₁ := by
  obtain ⟨hshown, hdocuments, hboth, -⟩ := relationships_have_no_direction twiceJoined
  have hknown : (2 : Int64) ∈ twiceJoined.fixture.ids := by decide
  obtain ⟨shown₁, h₁⟩ : ∃ d, twiceJoined.documentEntity? 1 = some d := ⟨_, rfl⟩
  obtain ⟨shown₂, h₂⟩ : ∃ d, twiceJoined.documentEntity? 2 = some d := ⟨_, rfl⟩
  have hdocument : twiceJoined.answer (.path (.entities 1 1) 2 .unfiltered) .plain =
      .ok ⟨[⟨1, 1, [1]⟩], [shown₁], none⟩ := by
    cases h₁
    rfl
  have hlisted : shown₁ ∈ (⟨[⟨1, 1, [1]⟩], [shown₁], none⟩ : Document).entities :=
    List.mem_singleton_self shown₁
  refine ⟨hshown 2 hknown, shown₁, shown₂, _, h₁, h₂, ?_, hboth 1 2 shown₁ shown₂ h₁ h₂,
    hdocument, hlisted, hdocuments _ _ _ hdocument shown₁ hlisted⟩
  rw [towards_eq (documentEntity?_eq_some h₁).2]
  decide

end Graph

end Linkage
