import Linkage.Proofs.Graph.Rearranged
import Linkage.Proofs.Search.Shortest

/-!
Which of the shortest paths is found.

The trails of a level come in the order of their entities' numbers, and the first one to a place is
kept. Without required sources no trail is given up for another reason, so that the one kept for an
entity comes before every walk to it that is as long.
-/

namespace Linkage

/-- Two lists of one length keep their order when both go on to the same entity. -/
theorem concat_le_concat_same {as bs : List Int64} (hlen : as.length = bs.length) (h : as ≤ bs)
    (id : Int64) : as ++ [id] ≤ bs ++ [id] := by
  by_cases heq : as = bs
  · rw [heq]
    exact List.le_refl _
  · have hlt : as < bs := by
      apply List.not_le.mp
      intro hge
      exact heq (List.le_antisymm h hge)
    exact List.le_of_lt (concat_lt_concat hlen hlt id id)

namespace Quest

variable {q : Quest} {start id : Int64} {m n : Nat} {t u : Trail}

/-- A place that is new in a level cannot be entered from an earlier level than the one before, or
by a step back to an entity of the trail. -/
theorem entered_from_latest (hm : ∀ id, q.meets id = true) (ht : t ∈ q.level start (n + 1))
    (hhere : t.here = (id, true)) (hu : u ∈ q.level start m) (hle : m ≤ n)
    (hn : id ∈ q.next u.here.1) (hp : q.Passable id) : m = n ∧ q.IsOpen u id := by
  have hnew (k : Nat) (hk : k ≤ n) (v : Trail) (hv : v ∈ q.level start k) :
      v.here ≠ (id, true) := by
    intro he
    apply level_fresh ht
    rw [hhere, ← he]
    exact mem_reached.mpr ⟨k, hk, v, hv, rfl⟩
  constructor
  · obtain ⟨k, hk, v, hv, he⟩ := neighbour_reached hm hu hn hp
    rw [step_free hm] at he
    have hdeep : ¬ k ≤ n := fun hle => hnew k hle v hv he
    omega
  · refine ⟨hn, hp, fun hvisited => ?_⟩
    obtain ⟨k, hk, v, hv, he⟩ := visited_reached hm hu hvisited
    exact hnew k (by omega) v hv he

end Quest

namespace Graph

variable {g : Graph} {start goal target : Int64} {avoided ids path : List Int64}
  {maxDegrees : Nat} {t : Trail}

/-- A walk to a new place has its last step but one in the level before, so the trail that is kept
there comes before the walk that far, and with it the trail that is kept here. -/
theorem level_le_walk (hw : g.IsWalk start target ids)
    (hp : ∀ id ∈ ids.tail, (g.quest goal avoided none).Passable id)
    (ht : t ∈ (g.quest goal avoided none).level start (edges ids))
    (hhere : t.here = (target, true)) : t.entities ≤ ids := by
  induction hw using IsWalk.concat_induction generalizing t with
  | single =>
    obtain rfl := List.mem_singleton.mp ht
    exact List.le_refl _
  | @concat ids id next hw hj ih =>
    rw [List.tail_append_of_ne_nil hw.ne_nil] at hp
    obtain ⟨hpass, hpassNext⟩ := List.forall_mem_append.mp hp
    rw [edges_concat next hw.ne_nil] at ht
    obtain ⟨m, hle, u, hu, huhere⟩ := hw.reached hpass
    have hnext : next ∈ (g.quest goal avoided none).next u.here.1 := by
      rw [huhere]
      exact mem_neighbours.mpr hj
    obtain ⟨rfl, hopen⟩ := Quest.entered_from_latest (fun _ => rfl) ht hhere hu hle hnext
      (hpassNext next (List.mem_singleton_self next))
    have hbefore : u.entities ≤ ids := ih hpass hu huhere
    have hlen : u.entities.length = ids.length := by
      have hpos := List.length_pos_iff.mpr hw.ne_nil
      rw [u.length_entities, Quest.level_length hu, edges]
      omega
    have hway : (g.quest goal avoided none).onward u next ∈
        (g.quest goal avoided none).ways ((g.quest goal avoided none).level start (edges ids)) :=
      (Quest.mem_ways _).mpr ⟨u, hu, next, hopen, rfl⟩
    have hplace : ((g.quest goal avoided none).onward u next).here = t.here := by
      rw [Quest.here_onward, Quest.step_free (fun _ => rfl), hhere]
    have hkept := Quest.level_least quest_ordered ht hway hplace
    rw [Quest.entities_onward] at hkept
    exact List.le_trans hkept (concat_le_concat_same hlen hbefore next)

/-- A path within a bound and clear of avoided entities that has no more steps than any other, and
comes first among those that have as few, by the numbers of the entities from the start on. -/
structure IsFirst (g : Graph) (origin target : Int64) (maxDegrees : Nat)
    (avoided path : List Int64) :
    Prop extends g.Connects origin target maxDegrees avoided path where
  simple : path.Nodup
  shortest : ∀ ids, g.Connects origin target maxDegrees avoided ids → edges path ≤ edges ids
  first : ∀ ids, g.Connects origin target maxDegrees avoided ids →
    edges ids = edges path → path ≤ ids

theorem IsFirst.unique {path' : List Int64} (h : g.IsFirst start goal maxDegrees avoided path)
    (h' : g.IsFirst start goal maxDegrees avoided path') : path = path' := by
  have hedges : edges path = edges path' :=
    Nat.le_antisymm (h.shortest path' h'.toConnects) (h'.shortest path h.toConnects)
  exact List.le_antisymm (h.first path' h'.toConnects hedges.symm)
    (h'.first path h.toConnects hedges)

theorem shortestPath_of_connects (h : g.Connects start goal maxDegrees avoided ids) :
    ∃ path, g.shortestPath start goal maxDegrees avoided none = some path := by
  obtain ⟨path, hpath, _⟩ := found_of_reached h.bounded h.reached
  exact ⟨path, hpath⟩

/-- **The first of the shortest paths is found.** -/
theorem shortestPath_isFirst : g.shortestPath start goal maxDegrees avoided none = some path ↔
    g.IsFirst start goal maxDegrees avoided path := by
  have hfirst {path : List Int64}
      (h : g.shortestPath start goal maxDegrees avoided none = some path) :
      g.IsFirst start goal maxDegrees avoided path := by
    obtain ⟨hconnects, hsimple, -⟩ := shortestPath_sound h
    obtain ⟨n, hn, t, ht, hhere, rfl⟩ := shortestPath_eq_some.mp h
    have hedges := Quest.edges_level ht
    refine ⟨hconnects, hsimple, fun ids hids => ?_, fun ids hids heq => ?_⟩
    · obtain ⟨m, hm, u, hu, huhere⟩ := hids.reached
      obtain rfl := Quest.level_unique ht hu (hhere.trans huhere.symm)
      rwa [Quest.edges_level hu]
    · rw [← hedges, ← heq] at ht
      exact level_le_walk hids.walk hids.passable ht hhere
  constructor
  · exact hfirst
  · intro h
    obtain ⟨found, hfound⟩ := shortestPath_of_connects h.toConnects
    rw [hfound, (hfirst hfound).unique h]

/-! ## Graphs that join the same entities -/

theorem connects_congr {g' : Graph} (h : ∀ a b, g'.Joined a b ↔ g.Joined a b) :
    g'.Connects start goal maxDegrees avoided ids ↔
      g.Connects start goal maxDegrees avoided ids := by
  constructor
  · rintro ⟨⟨hfirst, hlast, hjoined⟩, hbounded, hclear⟩
    exact ⟨⟨hfirst, hlast, hjoined.imp fun a b => (h a b).mp⟩, hbounded, hclear⟩
  · rintro ⟨⟨hfirst, hlast, hjoined⟩, hbounded, hclear⟩
    exact ⟨⟨hfirst, hlast, hjoined.imp fun a b => (h a b).mpr⟩, hbounded, hclear⟩

theorem IsFirst.congr {g' : Graph} (h : ∀ a b, g'.Joined a b ↔ g.Joined a b)
    (hfirst : g.IsFirst start goal maxDegrees avoided path) :
    g'.IsFirst start goal maxDegrees avoided path where
  toConnects := (connects_congr h).mpr hfirst.toConnects
  simple := hfirst.simple
  shortest ids hids := hfirst.shortest ids ((connects_congr h).mp hids)
  first ids hids := hfirst.first ids ((connects_congr h).mp hids)

/-- The path depends on nothing but which entities are joined. -/
theorem shortestPath_congr {g' : Graph} (h : ∀ a b, g'.Joined a b ↔ g.Joined a b) :
    g'.shortestPath start goal maxDegrees avoided none =
      g.shortestPath start goal maxDegrees avoided none := by
  apply Option.ext
  intro path
  rw [shortestPath_isFirst, shortestPath_isFirst]
  exact ⟨IsFirst.congr fun a b => (h a b).symm, IsFirst.congr h⟩

/-- **Ties are broken by number.** Without required sources the path that is found is the one with
the fewest steps that comes first by the numbers of its entities. A fixture that tells the same
entities and relationships in another order, the other way round or more than once is accepted too,
and gives the same path. -/
theorem finds_first_of_shortest (g : Graph) (start goal : Int64) (maxDegrees : Nat)
    (avoided : List Int64) :
    (∀ path, g.shortestPath start goal maxDegrees avoided none = some path ↔
      g.IsFirst start goal maxDegrees avoided path) ∧
    ∀ f, g.fixture.Rearranged f → ∃ g', ofFixture f = .ok g' ∧
      g'.shortestPath start goal maxDegrees avoided none =
        g.shortestPath start goal maxDegrees avoided none := by
  refine ⟨fun path => shortestPath_isFirst, fun f hf => ?_⟩
  obtain ⟨g', rfl, hjoined⟩ := hf.isToldBy
  exact ⟨g', ofFixture_fixture g', shortestPath_congr hjoined⟩

/-- Six entities in a ring, in which 1 and 6 are opposite. -/
def hexagon : Graph where
  fixture :=
    { sources := []
      entities := [⟨1, none, [], .empty⟩, ⟨2, none, [], .empty⟩, ⟨3, none, [], .empty⟩,
        ⟨4, none, [], .empty⟩, ⟨5, none, [], .empty⟩, ⟨6, none, [], .empty⟩]
      relationships := [⟨1, 3, 0, none, false, false⟩, ⟨3, 4, 0, none, false, false⟩,
        ⟨4, 6, 0, none, false, false⟩, ⟨6, 5, 0, none, false, false⟩,
        ⟨5, 2, 0, none, false, false⟩, ⟨2, 1, 0, none, false, false⟩] }
  accepted := by decide +kernel

/-- Of the two ways from 1 to 6 the one through 2 comes first, also with the entities listed
backwards and the first relationship given once more and the other way round. -/
theorem hexagon_finds_first :
    hexagon.IsFirst 1 6 3 [] [1, 2, 5, 6] ∧
      ∃ f, hexagon.fixture.Rearranged f ∧
        f.relationships.head? = some ⟨3, 1, 0, none, false, false⟩ ∧
        ∃ g', ofFixture f = .ok g' ∧ g'.shortestPath 1 6 3 [] none = some [1, 2, 5, 6] := by
  have hfound : hexagon.shortestPath 1 6 3 [] none = some [1, 2, 5, 6] := by cbv
  obtain ⟨hfirst, hkept⟩ := finds_first_of_shortest hexagon 1 6 3 []
  let backwards : Fixture :=
    { hexagon.fixture with entities := hexagon.fixture.entities.reverse }
  let again : Relationship := ⟨1, 3, 0, none, false, false⟩
  let doubled : Fixture := { backwards with relationships := again :: backwards.relationships }
  let turned : Fixture :=
    { backwards with relationships := again.turned :: backwards.relationships }
  have hbackwards : hexagon.fixture.Rearranges backwards := .entities (List.reverse_perm _).symm
  have hdoubled : backwards.Rearranges doubled := .repeated List.mem_cons_self
  have hturned : doubled.Rearranges turned := @Fixture.Rearranges.turned doubled [] _ again rfl
  have hrearranged : hexagon.fixture.Rearranged turned :=
    ((Relation.ReflTransGen.single hbackwards).tail hdoubled).tail hturned
  refine ⟨(hfirst _).mp hfound, _, hrearranged, rfl, ?_⟩
  obtain ⟨g', hg', hsame⟩ := hkept _ hrearranged
  exact ⟨g', hg', hsame.trans hfound⟩

end Graph

end Linkage
