import Linkage.Proofs.Graph.Walks
import Linkage.Proofs.Search.Levels

namespace Linkage

theorem Quest.edges_level {q : Quest} {start : Int64} {n : Nat} {t : Trail}
    (ht : t ∈ q.level start n) : edges t.entities = n := by
  rw [edges, t.length_entities, Quest.level_length ht, Nat.add_sub_cancel]

namespace Graph

variable {g : Graph} {start goal : Int64} {avoided : List Int64} {required : Option (List String)}

theorem quest_ordered : (g.quest goal avoided required).Ordered := neighbours_sorted

theorem shortestPath_eq_some {maxDegrees : Nat} {ids : List Int64} :
    g.shortestPath start goal maxDegrees avoided required = some ids ↔
      ∃ n ≤ maxDegrees, ∃ t ∈ (g.quest goal avoided required).level start n,
        t.here = (goal, true) ∧ t.entities = ids :=
  Quest.path?_eq_some

/-- Where the goal is reached in time a path is found, and none that is longer. -/
theorem found_of_reached {maxDegrees limit : Nat} (hlimit : limit ≤ maxDegrees)
    (h : ∃ n ≤ limit, ∃ t ∈ (g.quest goal avoided required).level start n,
      t.here = (goal, true)) :
    ∃ path, g.shortestPath start goal maxDegrees avoided required = some path ∧
      edges path ≤ limit := by
  obtain ⟨n, hn, t, ht, hhere⟩ := h
  have hbound : n ≤ maxDegrees := Nat.le_trans hn hlimit
  refine ⟨t.entities, shortestPath_eq_some.mpr ⟨n, hbound, t, ht, hhere, rfl⟩, ?_⟩
  rwa [Quest.edges_level ht]

end Graph

namespace Quest.Route

variable {g : Graph} {start goal : Int64} {avoided : List Int64} {required : Option (List String)}
  {t : Trail}

theorem isWalk (h : (g.quest goal avoided required).Route start t) :
    g.IsWalk start t.here.1 t.entities :=
  ⟨h.head?, t.getLast?_entities, h.isChain.imp fun _ _ => Graph.mem_neighbours.mp⟩

theorem clear (h : (g.quest goal avoided required).Route start t) (hg : t.here.1 = goal) :
    ∀ id ∈ interior t.entities, id ∉ avoided := by
  intro id hid
  have htail : t.entities.tail ≠ [] := by
    intro hnil
    simp [interior, hnil] at hid
  have hsplit := tail_eq_interior_concat t.getLast?_entities htail
  have hnodup := hsplit ▸ h.nodup.tail
  -- The goal stands last, so an entity before it is not the goal.
  have hne : id ≠ goal := by
    rintro rfl
    exact (List.nodup_append.mp hnodup).2.2 id hid _ (List.mem_singleton_self _) hg.symm
  have hpass := h.passable id (hsplit ▸ List.mem_append_left _ hid)
  exact hpass.resolve_left hne

theorem connects {maxDegrees : Nat} (h : (g.quest goal avoided required).Route start t)
    (hg : t.here.1 = goal) (hlen : t.before.length ≤ maxDegrees) :
    g.Connects start goal maxDegrees avoided t.entities :=
  ⟨hg ▸ h.isWalk, by simpa [edges] using hlen, h.clear hg⟩

theorem source {sources : List String}
    (h : (g.quest goal avoided (some sources)).Route start t) (hm : t.here.2 = true) :
    ∃ id ∈ t.entities, g.holdsSource sources id = true := by
  rw [h.met] at hm
  exact List.any_eq_true.mp hm

end Quest.Route

namespace Graph

variable {g : Graph} {start goal : Int64} {avoided : List Int64} {required : Option (List String)}

/-- If each step along a walk leads to a place that is reached by the next level, its end is
reached by the level that is as deep as the walk is long. The place before a step was then reached
by the level that is as deep as the walk is long up to there. -/
theorem walk_reached {target : Int64} {ids : List Int64} (hw : g.IsWalk start target ids)
    (hstep : ∀ as id next bs, ids = as ++ id :: next :: bs →
      ∀ n ≤ edges (as ++ [id]), ∀ t ∈ (g.quest goal avoided required).level start n,
        t.here = (id, (as ++ [id]).any (g.quest goal avoided required).meets) →
        next ∈ (g.quest goal avoided required).next t.here.1 →
        ∃ m ≤ n + 1, ∃ u ∈ (g.quest goal avoided required).level start m,
          u.here = (g.quest goal avoided required).step t.here next) :
    ∃ n ≤ edges ids, ∃ t ∈ (g.quest goal avoided required).level start n,
      t.here = (target, ids.any (g.quest goal avoided required).meets) := by
  induction hw using IsWalk.concat_induction with
  | single => exact ⟨0, Nat.le_refl _, _, List.mem_singleton_self _, by simp [Quest.start]⟩
  | @concat ids id next hw hj ih =>
    obtain ⟨n, hn, t, ht, he⟩ := ih fun as id mid bs hs =>
      hstep as id mid (bs ++ [next]) (by simp [hs])
    obtain ⟨as, rfl⟩ := List.getLast?_eq_some_iff.mp hw.last
    have hnext : next ∈ (g.quest goal avoided required).next t.here.1 := by
      rw [he]
      exact mem_neighbours.mpr hj
    obtain ⟨m, hm, u, hu, hhere⟩ := hstep as id next [] (by simp) n hn t ht he hnext
    refine ⟨m, by rw [edges_concat _ hw.ne_nil]; omega, u, hu, ?_⟩
    rw [hhere, Quest.step, he, List.any_append, List.any_append, List.any_append]
    simp

/-- A path that is found is one: it keeps every rule of its search. -/
theorem shortestPath_sound {maxDegrees : Nat} {ids : List Int64}
    (h : g.shortestPath start goal maxDegrees avoided required = some ids) :
    g.Connects start goal maxDegrees avoided ids ∧ ids.Nodup ∧
      ∀ sources, required = some sources → ∃ id ∈ ids, g.holdsSource sources id = true := by
  obtain ⟨n, hn, t, ht, hd, rfl⟩ := shortestPath_eq_some.mp h
  have hroute := Quest.level_route ht
  have hlen : t.before.length ≤ maxDegrees := Quest.level_length ht ▸ hn
  refine ⟨hroute.connects (congrArg Prod.fst hd) hlen, hroute.nodup, ?_⟩
  rintro sources rfl
  exact hroute.source (congrArg Prod.snd hd)

end Graph

end Linkage
