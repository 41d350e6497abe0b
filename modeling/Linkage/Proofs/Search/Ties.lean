import Linkage.Proofs.Search.Least
import Linkage.Proofs.Search.Sources

/-!
Required sources that a shortest path meets anyway.

A search with required sources may give a path up because the one trail that it keeps for a place
passes what comes next. Along a path with the fewest steps it cannot: that trail would have been at
the next entity earlier, and the path from there on would make a shorter one.
-/

namespace Linkage.Graph

/-- A path within a bound and clear of avoided entities that has no more steps than any other. -/
structure IsShortest (g : Graph) (origin target : Int64) (maxDegrees : Nat)
    (avoided path : List Int64) : Prop
    extends g.Connects origin target maxDegrees avoided path where
  shortest : ∀ ids, g.Connects origin target maxDegrees avoided ids → ids.Nodup →
    edges path ≤ edges ids

namespace IsShortest

variable {g : Graph} {start goal : Int64} {maxDegrees n : Nat} {avoided path ids : List Int64}
  {required : Option (List String)} {t : Trail}

/-- A walk that a search may go is at least as long. It need not be clear of its own goal, but a
search without required sources ends where it first gets there. -/
theorem le_walk (h : g.IsShortest start goal maxDegrees avoided path)
    (hw : g.IsWalk start goal ids) (hp : ∀ id ∈ ids.tail, id = goal ∨ id ∉ avoided) :
    edges path ≤ edges ids := by
  obtain ⟨n, hn, t, ht, hhere⟩ := hw.reached hp
  have hroute := Quest.level_route ht
  by_cases hbound : n ≤ maxDegrees
  · have hlength : t.before.length ≤ maxDegrees := by
      rw [Quest.level_length ht]
      exact hbound
    have hconnects := hroute.connects (congrArg Prod.fst hhere) hlength
    have hle := h.shortest t.entities hconnects hroute.nodup
    rw [Quest.edges_level ht] at hle
    omega
  · have hbounded := h.bounded
    omega

/-- A trail that gets to an entity of the path no later than the path has not been at the next one:
from there on the path would be shorter. -/
theorem ahead (h : g.IsShortest start goal maxDegrees avoided path) {as bs : List Int64}
    {id next : Int64} (hpath : path = as ++ id :: next :: bs)
    (ht : t ∈ (g.quest goal avoided required).level start n) (hn : n ≤ edges (as ++ [id])) :
    next ∉ t.entities := by
  intro hvisited
  have hroute := Quest.level_route ht
  obtain ⟨cs, ds, hsplit⟩ := List.append_of_mem hvisited
  -- The trail as far as `next`, and the path from there on.
  have hwalk : g.IsWalk start goal (cs ++ next :: bs) := by
    have hbefore := hroute.isWalk
    have hafter := h.walk
    rw [hsplit] at hbefore
    rw [hpath, List.append_cons] at hafter
    exact hbefore.turn hafter
  have hpassable : ∀ other ∈ (cs ++ next :: bs).tail, other = goal ∨ other ∉ avoided := by
    intro other hother
    rcases mem_tail_turn hother with hbefore | hafter
    · apply hroute.passable other
      rw [hsplit]
      exact hbefore
    · apply h.passable other
      rw [hpath, List.append_cons]
      exact hafter
  have hle := h.le_walk hwalk hpassable
  have hlevel := Quest.edges_level ht
  rw [hsplit] at hlevel
  rw [hpath] at hle
  simp only [edges, List.length_append, List.length_cons, List.length_nil] at hle hlevel hn
  omega

/-- So every step of the path is open to the trail that is kept for the place before it. -/
theorem reached (h : g.IsShortest start goal maxDegrees avoided path)
    (required : Option (List String)) :
    ∃ n ≤ edges path, ∃ t ∈ (g.quest goal avoided required).level start n,
      t.here = (goal, path.any (g.quest goal avoided required).meets) := by
  refine walk_reached h.walk fun as id next bs hs n hn t ht _ hnext => ?_
  have hpass := h.passable next (mem_tail_of_split hs)
  exact Quest.level_closed ht ⟨hnext, hpass, h.ahead hs ht hn⟩

end IsShortest

/-- **A source that is met anyway costs nothing.** If an entity of some shortest path has a record
from a required source, the search with these required sources finds a path that is just as
short. -/
theorem met_sources_cost_nothing (g : Graph) (start goal : Int64) (maxDegrees : Nat)
    (avoided : List Int64) (sources : List String) {path : List Int64}
    (hshortest : g.IsShortest start goal maxDegrees avoided path)
    (hmet : ∃ id ∈ path, g.holdsSource sources id = true) :
    ∃ found, g.shortestPath start goal maxDegrees avoided (some sources) = some found ∧
      g.Qualifies start goal maxDegrees avoided sources found ∧ edges found = edges path := by
  have hmeets : path.any (g.quest goal avoided (some sources)).meets = true :=
    List.any_eq_true.mpr hmet
  have hreached := hshortest.reached (some sources)
  rw [hmeets] at hreached
  obtain ⟨found, hfound, hle⟩ := found_of_reached hshortest.bounded hreached
  have hqualifies := shortestPath_qualifies hfound
  have hge := hshortest.shortest found hqualifies.toConnects hqualifies.simple
  exact ⟨found, hfound, hqualifies, Nat.le_antisymm hle hge⟩

/-- Two ways from 1 to 4, of which the one through 3 passes the watch list. -/
def diamond : Graph where
  fixture :=
    { sources := []
      entities := [⟨1, none, [], .empty⟩, ⟨2, none, [], .empty⟩,
        ⟨3, none, [⟨"WATCHLIST", "W3"⟩], .empty⟩, ⟨4, none, [], .empty⟩, ⟨5, none, [], .empty⟩]
      relationships := [⟨1, 2, 0, none, false, false⟩, ⟨1, 3, 0, none, false, false⟩,
        ⟨2, 4, 0, none, false, false⟩, ⟨3, 4, 0, none, false, false⟩,
        ⟨4, 5, 0, none, false, false⟩] }
  accepted := by decide +kernel

/-- Without the watch list the way through 2 is found, and with it another one as short. -/
theorem diamond_met :
    diamond.shortestPath 1 4 3 [5] none = some [1, 2, 4] ∧
      diamond.IsShortest 1 4 3 [5] [1, 3, 4] ∧
      (∃ id ∈ [1, 3, 4], diamond.holdsSource ["WATCHLIST"] id = true) ∧
      ∃ found, diamond.shortestPath 1 4 3 [5] (some ["WATCHLIST"]) = some found ∧
        diamond.Qualifies 1 4 3 [5] ["WATCHLIST"] found ∧ edges found = edges [1, 3, 4] := by
  have hplain : diamond.shortestPath 1 4 3 [5] none = some [1, 2, 4] := by cbv
  have hfirst := shortestPath_isFirst.mp hplain
  have hclear : ∀ id ∈ interior [1, 3, 4], id ∉ [5] := List.forall_mem_singleton.mpr (by decide)
  have hshortest : diamond.IsShortest 1 4 3 [5] [1, 3, 4] :=
    ⟨⟨⟨rfl, rfl, by decide +kernel⟩, by decide, hclear⟩, fun ids hids _ => hfirst.shortest ids hids⟩
  have hmet : ∃ id ∈ [1, 3, 4], diamond.holdsSource ["WATCHLIST"] id = true :=
    ⟨3, by decide, by decide +kernel⟩
  exact ⟨hplain, hshortest, hmet, met_sources_cost_nothing diamond 1 4 3 [5] _ hshortest hmet⟩

end Linkage.Graph
