import Mathlib.Data.Nat.Find
import Linkage.Proofs.Search.Found
import Linkage.Proofs.Search.Kept

/-!
Searches with required sources.

A place is an entity and whether a required source was met on the way, and a search keeps one
trail for each. The trail that is kept for a place with its source met may have passed an entity
that a simple path needs after it, and then the search gives that path up.

* `Graph.Qualifies`: a simple path that a call with required sources asks for.
* `answersBest_iff_unobstructed`: the shortest of them is found exactly when one that is as short is
  unobstructed.
* `sharedPassage_missed`: a graph of five entities in which the only such path is missed.
-/

namespace Linkage.Graph

/-- A simple path within the bound, clear of avoided entities, with an entity that has a record
from a required source. -/
structure Qualifies (g : Graph) (origin target : Int64) (maxDegrees : Nat) (avoided : List Int64)
    (sources : List String) (ids : List Int64) : Prop
    extends g.Connects origin target maxDegrees avoided ids where
  simple : ids.Nodup
  source : ∃ id ∈ ids, g.holdsSource sources id = true

/-- If some path qualifies, a qualifying path is found, and none has fewer steps. -/
def AnswersBest (g : Graph) (origin target : Int64) (maxDegrees : Nat) (avoided : List Int64)
    (sources : List String) : Prop :=
  (∃ ids, g.Qualifies origin target maxDegrees avoided sources ids) →
    ∃ path, g.shortestPath origin target maxDegrees avoided (some sources) = some path ∧
      g.Qualifies origin target maxDegrees avoided sources path ∧
      ∀ ids, g.Qualifies origin target maxDegrees avoided sources ids → edges path ≤ edges ids

variable {g : Graph} {start goal : Int64} {maxDegrees : Nat} {avoided : List Int64}
  {sources : List String}

theorem shortestPath_qualifies {path : List Int64}
    (h : g.shortestPath start goal maxDegrees avoided (some sources) = some path) :
    g.Qualifies start goal maxDegrees avoided sources path := by
  obtain ⟨hc, hs, hm⟩ := shortestPath_sound h
  exact ⟨hc, hs, hm sources rfl⟩

theorem shortestPath_unobstructed {required : Option (List String)} {path : List Int64}
    (h : g.shortestPath start goal maxDegrees avoided required = some path) :
    (g.quest goal avoided required).Unobstructed start path := by
  obtain ⟨n, _, t, ht, _, rfl⟩ := shortestPath_eq_some.mp h
  exact Quest.level_unobstructed quest_ordered ht

/-- Along an unobstructed walk every step is open. -/
theorem Qualifies.reached {ids : List Int64}
    (h : g.Qualifies start goal maxDegrees avoided sources ids)
    (hu : (g.quest goal avoided (some sources)).Unobstructed start ids) :
    ∃ n ≤ edges ids, ∃ t ∈ (g.quest goal avoided (some sources)).level start n,
      t.here = (goal, true) := by
  have hmet : ids.any (g.quest goal avoided (some sources)).meets = true :=
    List.any_eq_true.mpr h.source
  rw [← hmet]
  refine walk_reached h.walk fun as id next bs hs n _ t ht he hnext => ?_
  have hkept : (g.quest goal avoided (some sources)).Kept start n t :=
    (Quest.kept_iff quest_ordered).mpr ⟨n, Nat.le_refl n, ht⟩
  have hpass := h.passable next (mem_tail_of_split hs)
  exact Quest.level_closed ht ⟨hnext, hpass, hu as id next bs hs n t hkept he⟩

theorem Qualifies.found {ids : List Int64}
    (h : g.Qualifies start goal maxDegrees avoided sources ids)
    (hu : (g.quest goal avoided (some sources)).Unobstructed start ids) :
    ∃ path, g.shortestPath start goal maxDegrees avoided (some sources) = some path ∧
      edges path ≤ edges ids :=
  found_of_reached h.bounded (h.reached hu)

theorem exists_shortest_qualifying {ids : List Int64}
    (h : g.Qualifies start goal maxDegrees avoided sources ids) :
    ∃ best, g.Qualifies start goal maxDegrees avoided sources best ∧
      ∀ ids, g.Qualifies start goal maxDegrees avoided sources ids → edges best ≤ edges ids := by
  classical
  have hex : ∃ n ids, g.Qualifies start goal maxDegrees avoided sources ids ∧ edges ids = n :=
    ⟨_, ids, h, rfl⟩
  obtain ⟨best, hbest, hlen⟩ := Nat.find_spec hex
  exact ⟨best, hbest, fun ids hids => hlen ▸ Nat.find_min' hex ⟨ids, hids, rfl⟩⟩

/-- **When a search with required sources is complete and shortest.** Exactly when each path that
qualifies can be replaced by one with no more steps along which no kept trail stands in the way:
none that is kept for a place on it passes the entity that the path enters next. -/
theorem answersBest_iff_unobstructed (g : Graph) (start goal : Int64) (maxDegrees : Nat)
    (avoided : List Int64) (sources : List String) :
    g.AnswersBest start goal maxDegrees avoided sources ↔
      ∀ ids, g.Qualifies start goal maxDegrees avoided sources ids →
        ∃ path, g.Qualifies start goal maxDegrees avoided sources path ∧
          edges path ≤ edges ids ∧
          (g.quest goal avoided (some sources)).Unobstructed start path := by
  constructor
  · intro hbest ids hids
    obtain ⟨path, hfound, hpath, hleast⟩ := hbest ⟨ids, hids⟩
    exact ⟨path, hpath, hleast ids hids, shortestPath_unobstructed hfound⟩
  · rintro hfree ⟨ids, hids⟩
    obtain ⟨best, hbest, hleast⟩ := exists_shortest_qualifying hids
    obtain ⟨path, hpath, hle, hu⟩ := hfree best hbest
    obtain ⟨found, hfound, hlen⟩ := hpath.found hu
    refine ⟨found, hfound, shortestPath_qualifies hfound, fun ids hids => ?_⟩
    have := hleast ids hids
    omega

/-- Entity 4 is on a watch list. It is two steps from 1, through 2 or through 3, and the only way
on to 5 goes back through 2. -/
def sharedPassage : Graph where
  fixture :=
    { sources := []
      entities := [⟨1, none, [], .empty⟩, ⟨2, none, [], .empty⟩, ⟨3, none, [], .empty⟩,
        ⟨4, none, [⟨"WATCHLIST", "W4"⟩], .empty⟩, ⟨5, none, [], .empty⟩]
      relationships := [⟨1, 2, 0, none, false, false⟩, ⟨1, 3, 0, none, false, false⟩,
        ⟨2, 4, 0, none, false, false⟩, ⟨3, 4, 0, none, false, false⟩,
        ⟨2, 5, 0, none, false, false⟩] }
  accepted := by decide +kernel

/-- The search keeps the trail through 2 for entity 4, and so misses the path through 3. -/
theorem sharedPassage_missed :
    1 ∈ sharedPassage.fixture.ids ∧ 5 ∈ sharedPassage.fixture.ids ∧
    sharedPassage.Qualifies 1 5 4 [] ["WATCHLIST"] [1, 3, 4, 2, 5] ∧
    sharedPassage.shortestPath 1 5 4 [] (some ["WATCHLIST"]) = none ∧
    ¬ sharedPassage.AnswersBest 1 5 4 [] ["WATCHLIST"] := by
  have hpath : sharedPassage.Qualifies 1 5 4 [] ["WATCHLIST"] [1, 3, 4, 2, 5] :=
    ⟨⟨⟨rfl, rfl, by decide +kernel⟩, by decide, fun _ _ => List.not_mem_nil⟩, by decide +kernel,
      ⟨4, by decide +kernel, rfl⟩⟩
  have hnone : sharedPassage.shortestPath 1 5 4 [] (some ["WATCHLIST"]) = none := by
    simp [sharedPassage, shortestPath, quest, Quest.path?, Quest.search, Quest.start, Quest.step,
      Quest.advance, Quest.extend, Quest.isClosed, Quest.isDone, Trail.visits, Trail.goTo,
      holdsSource, entity?, neighbours, relations, Relationship.touches, Relationship.opposite,
      List.mergeSort, List.MergeSort.Internal.splitInTwo]
  refine ⟨by decide +kernel, by decide +kernel, hpath, hnone, fun hbest => ?_⟩
  obtain ⟨path, hfound, _⟩ := hbest ⟨_, hpath⟩
  cases hnone.symm.trans hfound

end Linkage.Graph
