import Linkage.Proofs.Network.Content
import Linkage.Proofs.Search.Least

/-!
The members of a network in another order.

For each two members a path is searched from the earlier one. Listed the other way round they are
searched from the other end, where another one of the shortest paths may come first.
-/

namespace Linkage

/-- Two members are listed in one order, and in the other order in another list. -/
def Exchanged (members members' : List Int64) (a b : Int64) : Prop :=
  (a, b) ∈ pairs (includeAll [] members) ∧ (b, a) ∈ pairs (includeAll [] members')

/-- A path has these two ends, whichever is its first. -/
def EntityPath.Joins (p : EntityPath) (a b : Int64) : Prop :=
  (p.origin = a ∧ p.target = b) ∨ (p.origin = b ∧ p.target = a)

/-- For each two of the members both documents list a path, with as many entities in the one as in
the other, and they list no other paths. -/
structure Document.Matches (d d' : Document) (members : List Int64) : Prop where
  listed : ∀ a ∈ members, ∀ b ∈ members, a ≠ b →
    (∃ p ∈ d.paths, p.Joins a b) ∧ ∃ p' ∈ d'.paths, p'.Joins a b
  alike : ∀ p ∈ d.paths, ∀ p' ∈ d'.paths, ∀ a b, p.Joins a b → p'.Joins a b →
    p.entities.length = p'.entities.length
  only : ∀ p, p ∈ d.paths ∨ p ∈ d'.paths → ∃ a ∈ members, ∃ b ∈ members, a ≠ b ∧ p.Joins a b

/-- Two members in one order are a pair in every list with the same members, or exchanged there. -/
theorem pairs_of_perm {members members' : List Int64} (hperm : members.Perm members')
    {a b : Int64} (h : (a, b) ∈ pairs (includeAll [] members)) :
    (a, b) ∈ pairs (includeAll [] members') ∨ Exchanged members members' a b := by
  have hmem {id : Int64} (hid : id ∈ includeAll [] members) : id ∈ includeAll [] members' :=
    mem_includeAll_nil.mpr (hperm.mem_iff.mp (mem_includeAll_nil.mp hid))
  obtain ⟨ha, hb⟩ := mem_pairs h
  have hne : a ≠ b := pairs_ne (nodup_includeAll List.nodup_nil) h
  exact (pairs_of_ne (hmem ha) (hmem hb) hne).imp_right fun hback => ⟨h, hback⟩

namespace Graph

variable {g : Graph} {a b : Int64} {members members' : List Int64}
  {maxDegrees rounds limit : Nat}

/-! ## Searches from both ends -/

/-- The path that is found from one of two entities and the one found from the other pass the same
entities. -/
def SamePassage (g : Graph) (maxDegrees : Nat) (a b : Int64) : Prop :=
  ∀ id, id ∈ (g.shortestPath a b maxDegrees [] none).getD [] ↔
    id ∈ (g.shortestPath b a maxDegrees [] none).getD []

/-- No two walks within the bound are the shortest between two entities. -/
def OneShortest (g : Graph) (maxDegrees : Nat) (a b : Int64) : Prop :=
  ∀ p q, g.Connects a b maxDegrees [] p → g.Connects a b maxDegrees [] q →
    (∀ ids, g.Connects a b maxDegrees [] ids → edges p ≤ edges ids ∧ edges q ≤ edges ids) → p = q

theorem SamePassage.symm (h : g.SamePassage maxDegrees a b) : g.SamePassage maxDegrees b a :=
  fun id => (h id).symm

theorem IsFirst.edges_swap {p q : List Int64} (hp : g.IsFirst a b maxDegrees [] p)
    (hq : g.IsFirst b a maxDegrees [] q) : edges q = edges p := by
  have hforth := hp.shortest _ hq.toConnects.reverse
  have hback := hq.shortest _ hp.toConnects.reverse
  rw [edges_reverse] at hforth hback
  omega

/-- A path is found from both ends, or from neither. -/
theorem shortestPath_swap (g : Graph) (maxDegrees : Nat) (a b : Int64) :
    (g.shortestPath a b maxDegrees [] none = none ∧
      g.shortestPath b a maxDegrees [] none = none) ∨
    ∃ p q, g.shortestPath a b maxDegrees [] none = some p ∧
      g.shortestPath b a maxDegrees [] none = some q ∧
      g.IsFirst a b maxDegrees [] p ∧ g.IsFirst b a maxDegrees [] q := by
  have hback {a b : Int64} {p : List Int64}
      (h : g.shortestPath a b maxDegrees [] none = some p) :
      ∃ q, g.shortestPath b a maxDegrees [] none = some q :=
    shortestPath_of_connects (shortestPath_isFirst.mp h).toConnects.reverse
  cases hforth : g.shortestPath a b maxDegrees [] none with
  | some p =>
    obtain ⟨q, hq⟩ := hback hforth
    exact .inr ⟨p, q, rfl, hq, shortestPath_isFirst.mp hforth, shortestPath_isFirst.mp hq⟩
  | none =>
    refine .inl ⟨rfl, ?_⟩
    cases hq : g.shortestPath b a maxDegrees [] none with
    | none => rfl
    | some q =>
      obtain ⟨p, hp⟩ := hback hq
      cases hforth.symm.trans hp

/-- The searches from two ends find paths of one length, or none. -/
theorem length_swap (g : Graph) (maxDegrees : Nat) (a b : Int64) :
    ((g.shortestPath b a maxDegrees [] none).getD []).length =
      ((g.shortestPath a b maxDegrees [] none).getD []).length := by
  rcases g.shortestPath_swap maxDegrees a b with ⟨hp, hq⟩ | ⟨p, q, hp, hq, hpFirst, hqFirst⟩
  · rw [hp, hq]
  · rw [hp, hq, Option.getD_some, Option.getD_some]
    have hedges := hpFirst.edges_swap hqFirst
    have hpLong := List.length_pos_iff.mpr hpFirst.walk.ne_nil
    have hqLong := List.length_pos_iff.mpr hqFirst.walk.ne_nil
    unfold edges at hedges
    omega

/-- Where there is only one shortest path, it is found from both ends. -/
theorem OneShortest.samePassage (h : g.OneShortest maxDegrees a b) :
    g.SamePassage maxDegrees a b := by
  intro id
  rcases g.shortestPath_swap maxDegrees a b with ⟨hp, hq⟩ | ⟨p, q, hp, hq, hpFirst, hqFirst⟩
  · rw [hp, hq]
  · have hsame : p = q.reverse := by
      refine h p q.reverse hpFirst.toConnects hqFirst.toConnects.reverse fun ids hids => ?_
      have hle := hpFirst.shortest ids hids
      rw [edges_reverse, hpFirst.edges_swap hqFirst]
      exact ⟨hle, hle⟩
    rw [hp, hq, Option.getD_some, Option.getD_some, hsame, List.mem_reverse]

/-! ## Networks -/

/-- The base of a network stays when exchanged members have the same passage. -/
theorem core_subset (hperm : members.Perm members')
    (h : ∀ a b, Exchanged members members' a b → g.SamePassage maxDegrees a b) :
    ∀ id ∈ g.core members maxDegrees, id ∈ g.core members' maxDegrees := by
  intro id hid
  rcases mem_base.mp hid with hmember | ⟨p, hp, hpath⟩
  · refine mem_base.mpr (.inl ?_)
    exact mem_includeAll_nil.mpr (hperm.mem_iff.mp (mem_includeAll_nil.mp hmember))
  · obtain ⟨⟨a, b⟩, hpair, rfl⟩ := List.mem_map.mp hp
    refine mem_base.mpr (.inr ?_)
    rcases pairs_of_perm hperm hpair with hsame | hexchanged
    · exact ⟨_, List.mem_map_of_mem hsame, hpath⟩
    · exact ⟨_, List.mem_map_of_mem hexchanged.2, (h a b hexchanged id).mp hpath⟩

theorem core_perm (hperm : members.Perm members')
    (h : ∀ a b, Exchanged members members' a b → g.SamePassage maxDegrees a b) (id : Int64) :
    id ∈ g.core members maxDegrees ↔ id ∈ g.core members' maxDegrees := by
  constructor
  · exact core_subset hperm h id
  · apply core_subset hperm.symm
    intro a b hexchanged
    exact (h b a ⟨hexchanged.2, hexchanged.1⟩).symm

/-! ## Paths between members -/

theorem describeNetwork_joins_members {p : EntityPath}
    (hp : p ∈ (g.describeNetwork members maxDegrees rounds limit).paths) :
    ∃ a ∈ members, ∃ b ∈ members, a ≠ b ∧ p.Joins a b := by
  obtain ⟨⟨a, b⟩, hpair, rfl⟩ := List.mem_map.mp hp
  obtain ⟨ha, hb⟩ := mem_pairs hpair
  exact ⟨a, mem_includeAll_nil.mp ha, b, mem_includeAll_nil.mp hb,
    pairs_ne (nodup_includeAll List.nodup_nil) hpair, .inl ⟨rfl, rfl⟩⟩

/-- The number of entities on a listed path is that of a search from either of its ends. -/
theorem length_of_joins {p : EntityPath}
    (hp : p ∈ (g.describeNetwork members maxDegrees rounds limit).paths) (hjoins : p.Joins a b) :
    p.entities.length = ((g.shortestPath a b maxDegrees [] none).getD []).length := by
  rw [((g.describeNetwork_listsPaths ..).between p hp).2.2]
  rcases hjoins with ⟨rfl, rfl⟩ | ⟨rfl, rfl⟩
  · rfl
  · exact g.length_swap maxDegrees p.target p.origin

theorem describeNetwork_matches (hperm : members.Perm members') (maxDegrees rounds limit : Nat) :
    (g.describeNetwork members maxDegrees rounds limit).Matches
      (g.describeNetwork members' maxDegrees rounds limit) members where
  listed a ha b hb hne :=
    ⟨(g.describeNetwork_listsPaths ..).each a ha b hb hne,
      (g.describeNetwork_listsPaths ..).each a (hperm.mem_iff.mp ha) b (hperm.mem_iff.mp hb) hne⟩
  alike _ hp _ hp' _ _ hjoins hjoins' :=
    (length_of_joins hp hjoins).trans (length_of_joins hp' hjoins').symm
  only p hp := by
    rcases hp with hp | hp
    · exact describeNetwork_joins_members hp
    · obtain ⟨a, ha, b, hb, hends⟩ := describeNetwork_joins_members hp
      exact ⟨a, hperm.mem_iff.mpr ha, b, hperm.mem_iff.mpr hb, hends⟩

/-- Within its limit a network lists the whole vicinity of its base. -/
theorem mem_describeNetwork_ids (hknown : ∀ id ∈ members, id ∈ g.fixture.ids)
    (hall : (g.describeNetwork members maxDegrees rounds limit).limitReached = some false)
    (id : Int64) : id ∈ (g.describeNetwork members maxDegrees rounds limit).ids ↔
      id ∈ g.vicinity {id | id ∈ g.core members maxDegrees} rounds := by
  have hgathered := g.network_gathered members maxDegrees rounds limit
  rw [describeNetwork_ids hknown]
  exact ⟨hgathered.near id, hgathered.all (Option.some.inj hall) id⟩

/-- **The network of a set of members.** Take the same known members in two orders, with a limit
that is reached in neither. For each two of them both documents list a path of the same length, or
both list none. If the paths that are found from either end pass the same entities wherever two
members are exchanged, and so whenever only one shortest path joins these, then the documents list
the same entities. -/
theorem network_of_members (g : Graph) (maxDegrees rounds limit : Nat)
    {members members' : List Int64} (hknown : ∀ id ∈ members, id ∈ g.fixture.ids)
    (hperm : members.Perm members')
    (hall : (g.describeNetwork members maxDegrees rounds limit).limitReached = some false)
    (hall' : (g.describeNetwork members' maxDegrees rounds limit).limitReached = some false) :
    (g.describeNetwork members maxDegrees rounds limit).Matches
        (g.describeNetwork members' maxDegrees rounds limit) members ∧
    ((∀ a b, Exchanged members members' a b →
        g.SamePassage maxDegrees a b ∨ g.OneShortest maxDegrees a b) →
      ∀ id, id ∈ (g.describeNetwork members maxDegrees rounds limit).ids ↔
        id ∈ (g.describeNetwork members' maxDegrees rounds limit).ids) := by
  refine ⟨describeNetwork_matches hperm maxDegrees rounds limit, fun hpassage id => ?_⟩
  have hsame (a b : Int64) (hexchanged : Exchanged members members' a b) :
      g.SamePassage maxDegrees a b :=
    (hpassage a b hexchanged).elim (fun h => h) OneShortest.samePassage
  have hknown' : ∀ id ∈ members', id ∈ g.fixture.ids :=
    fun id hid => hknown id (hperm.mem_iff.mpr hid)
  have hcore : {id | id ∈ g.core members maxDegrees} = {id | id ∈ g.core members' maxDegrees} :=
    Set.ext (core_perm hperm hsame)
  rw [mem_describeNetwork_ids hknown hall, mem_describeNetwork_ids hknown' hall', hcore]

theorem hexagon_known {members : List Int64} (h : members ⊆ [1, 2, 6]) :
    ∀ id ∈ members, id ∈ hexagon.fixture.ids := by
  have hall : ∀ id ∈ [1, 2, 6], id ∈ hexagon.fixture.ids := by
    simp only [List.forall_mem_cons, List.not_mem_nil, false_implies, implies_true, and_true]
    decide +kernel
  exact fun id hid => hall id (h hid)

/-- Listed before 1 and 6 instead of after them, 2 is searched for from the other end. There is
only one shortest path to it from either, so the network stays. -/
theorem hexagon_keeps_network :
    (∀ id ∈ [1, 6, 2], id ∈ hexagon.fixture.ids) ∧ ([1, 6, 2] : List Int64).Perm [2, 1, 6] ∧
      (hexagon.describeNetwork [1, 6, 2] 3 0 1000).limitReached = some false ∧
      (hexagon.describeNetwork [2, 1, 6] 3 0 1000).limitReached = some false ∧
      (hexagon.describeNetwork [1, 6, 2] 3 0 1000).Matches
        (hexagon.describeNetwork [2, 1, 6] 3 0 1000) [1, 6, 2] ∧
      ∀ id, id ∈ (hexagon.describeNetwork [1, 6, 2] 3 0 1000).ids ↔
        id ∈ (hexagon.describeNetwork [2, 1, 6] 3 0 1000).ids := by
  have hknown : ∀ id ∈ [1, 6, 2], id ∈ hexagon.fixture.ids := hexagon_known (by decide)
  have hperm : ([1, 6, 2] : List Int64).Perm [2, 1, 6] := by decide
  have hall : (hexagon.describeNetwork [1, 6, 2] 3 0 1000).limitReached = some false := by cbv
  have hall' : (hexagon.describeNetwork [2, 1, 6] 3 0 1000).limitReached = some false := by cbv
  obtain ⟨hmatches, hsame⟩ := network_of_members hexagon 3 0 1000 hknown hperm hall hall'
  have hpairs : pairs (includeAll [] [1, 6, 2]) = [(1, 6), (1, 2), (6, 2)] := by decide
  have hpairs' : pairs (includeAll [] [2, 1, 6]) = [(2, 1), (2, 6), (1, 6)] := by decide
  refine ⟨hknown, hperm, hall, hall', hmatches, hsame fun a b hexchanged => .inl ?_⟩
  rw [Exchanged, hpairs, hpairs'] at hexchanged
  have hends : (a = 1 ∧ b = 2) ∨ (a = 6 ∧ b = 2) := by
    revert hexchanged
    simp only [List.mem_cons, Prod.mk.injEq, List.not_mem_nil, or_false]
    rintro ⟨⟨rfl, rfl⟩ | ⟨rfl, rfl⟩ | ⟨rfl, rfl⟩, hback⟩ <;> revert hback <;> decide
  rcases hends with ⟨rfl, rfl⟩ | ⟨rfl, rfl⟩
  · have hforth : hexagon.shortestPath 1 2 3 [] none = some [1, 2] := by cbv
    have hback : hexagon.shortestPath 2 1 3 [] none = some [2, 1] := by cbv
    intro id
    rw [hforth, hback]
    exact (List.Perm.swap 2 1 []).mem_iff
  · have hforth : hexagon.shortestPath 6 2 3 [] none = some [6, 5, 2] := by cbv
    have hback : hexagon.shortestPath 2 6 3 [] none = some [2, 5, 6] := by cbv
    intro id
    rw [hforth, hback]
    exact (List.reverse_perm [2, 5, 6]).mem_iff

/-- From 1 the way to 6 through 2 comes first, and from 6 the way to 1 through 4. So the network of
1 and 6 is another one than that of 6 and 1. -/
theorem hexagon_depends_on_order :
    (∀ id ∈ [1, 6], id ∈ hexagon.fixture.ids) ∧ ([1, 6] : List Int64).Perm [6, 1] ∧
      (hexagon.describeNetwork [1, 6] 3 0 1000).limitReached = some false ∧
      (hexagon.describeNetwork [6, 1] 3 0 1000).limitReached = some false ∧
      (hexagon.describeNetwork [1, 6] 3 0 1000).ids = [1, 6, 2, 5] ∧
      (hexagon.describeNetwork [6, 1] 3 0 1000).ids = [6, 1, 4, 3] ∧
      ¬ ∀ id, id ∈ (hexagon.describeNetwork [1, 6] 3 0 1000).ids ↔
        id ∈ (hexagon.describeNetwork [6, 1] 3 0 1000).ids := by
  have hforth : (hexagon.describeNetwork [1, 6] 3 0 1000).ids = [1, 6, 2, 5] := by cbv
  have hback : (hexagon.describeNetwork [6, 1] 3 0 1000).ids = [6, 1, 4, 3] := by cbv
  refine ⟨hexagon_known (by decide), by decide, by cbv, by cbv, hforth, hback, fun hsame => ?_⟩
  have htwo := (hsame 2).mp (by rw [hforth]; decide)
  rw [hback] at htwo
  exact absurd htwo (by decide)

end Graph

end Linkage
