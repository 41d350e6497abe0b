import Linkage.Proofs.Graph.Removal
import Linkage.Proofs.Search.Found

/-!
Avoided entities and entities that are not there.

A search skips an avoided entity, unless it is the goal; its start it never enters again, avoided or
not. So it goes the same way as a search in the graph without the other avoided entities, level by
level, whatever sources are required.
-/

namespace Linkage

namespace Quest

/-- The avoided entities, except for the two ends of the search. -/
def spared (q : Quest) (start : Int64) : List Int64 :=
  q.avoided.filter fun id => id != start && id != q.goal

/-- The second search avoids nothing, and has its way among the entities that the first one does
not avoid. -/
structure Clears (q r : Quest) (start : Int64) : Prop where
  goal : r.goal = q.goal
  free : r.avoided = []
  next : ∀ id, id ∉ q.spared start →
    r.next id = (q.next id).filter fun other => !(q.spared start).contains other
  meets : ∀ id, id ∉ q.spared start → r.meets id = q.meets id

variable {q r : Quest} {start id : Int64} {t : Trail}

theorem mem_spared : id ∈ q.spared start ↔ id ∈ q.avoided ∧ id ≠ start ∧ id ≠ q.goal := by
  simp [spared]

theorem start_not_spared (q : Quest) (start : Int64) : start ∉ q.spared start :=
  fun hmem => (mem_spared.mp hmem).2.1 rfl

namespace Clears

variable (h : q.Clears r start)
include h

theorem next_not_spared {other : Int64} (hid : id ∉ q.spared start) (hn : other ∈ r.next id) :
    other ∉ q.spared start := by
  rw [h.next id hid] at hn
  simpa using (List.mem_filter.mp hn).2

theorem here_not_spared (ht : r.Route start t) : t.here.1 ∉ q.spared start := by
  induction ht with
  | origin => exact q.start_not_spared start
  | onward _ ho ih => exact h.next_not_spared ih ho.1

/-- A trail has been at its start, so an avoided start is closed to it in any case. -/
theorem admits (hvisited : t.visits start = true) (id : Int64) :
    q.admits t id = (r.admits t id && !(q.spared start).contains id) := by
  unfold Quest.admits
  rw [h.goal, h.free]
  by_cases hs : id = start
  · rw [hs, hvisited]
    simp
  · by_cases hg : id = q.goal
    · simp [hg, mem_spared]
    · have hmem : id ∈ q.spared start ↔ id ∈ q.avoided := by simp [mem_spared, hs, hg]
      have hne : (id == q.goal) = false := by simpa using hg
      simp [hne, hmem, Bool.and_comm]

/-- From a trail that one search may follow, both go on in the same ways. -/
theorem ways (ht : r.Route start t) :
    ((q.next t.here.1).filter (q.admits t)).map (q.onward t) =
      ((r.next t.here.1).filter (r.admits t)).map (r.onward t) := by
  have hhere := h.here_not_spared ht
  have hvisited : t.visits start = true := t.visits_iff.mpr (List.mem_of_mem_head? ht.head?)
  have hsame : (q.next t.here.1).filter (q.admits t) = (r.next t.here.1).filter (r.admits t) := by
    rw [h.next _ hhere, List.filter_filter]
    exact List.filter_congr fun id _ => h.admits hvisited id
  rw [hsame]
  apply List.map_congr_left
  intro id hid
  have hstays := h.next_not_spared hhere (List.mem_of_mem_filter hid)
  rw [onward, onward, step, step, h.meets id hstays]

theorem level_ways (n : Nat) : q.ways (r.level start n) = r.ways (r.level start n) := by
  unfold Quest.ways
  rw [List.flatMap_def, List.flatMap_def]
  exact congrArg List.flatten (List.map_congr_left fun t ht => h.ways (level_route ht))

/-- Both searches reach the same places by the same trails. -/
theorem levels (n : Nat) : q.levels start n = r.levels start n := by
  induction n with
  | zero =>
    have hstart : q.start start = r.start start := by
      rw [Quest.start, Quest.start, h.meets start (q.start_not_spared start)]
    rw [Quest.levels, Quest.levels, origin, origin, hstart]
  | succ n ih =>
    have hways : q.ways (r.levels start n).2 = r.ways (r.levels start n).2 := h.level_ways n
    rw [Quest.levels, Quest.levels, advance_eq, advance_eq, ih, hways]

theorem path? (bound : Nat) : q.path? start bound = r.path? start bound := by
  apply Option.ext
  intro ids
  rw [path?_eq_some, path?_eq_some]
  simp only [level, h.levels, h.goal]

end Clears

end Quest

namespace Graph

theorem quest_clears (g : Graph) (start goal : Int64) (avoided : List Int64)
    (required : Option (List String)) :
    (g.quest goal avoided required).Clears
      ((g.without ((g.quest goal avoided required).spared start)).quest goal [] required) start
    where
  goal := rfl
  free := rfl
  next _ hid := neighbours_without hid
  meets id hid := by
    cases required with
    | none => rfl
    | some sources => exact holdsSource_without sources hid

/-- **Avoiding is removing.** A search that avoids some entities finds what a search finds that
avoids none in the graph without them, its two ends excepted. -/
theorem avoiding_is_removing (g : Graph) (start goal : Int64) (maxDegrees : Nat)
    (avoided : List Int64) (required : Option (List String)) :
    ∃ rest, ofFixture (g.fixture.without (avoided.filter fun id => id != start && id != goal)) =
        .ok rest ∧
      g.shortestPath start goal maxDegrees avoided required =
        rest.shortestPath start goal maxDegrees [] required :=
  ⟨_, ofFixture_fixture (g.without ((g.quest goal avoided required).spared start)),
    (g.quest_clears start goal avoided required).path? maxDegrees⟩

end Graph

end Linkage
