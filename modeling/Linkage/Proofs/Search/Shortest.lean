import Linkage.Proofs.Search.Found

/-!
Searches without required sources.

Every place has its requirement met, so a trail is only kept from the entities that other trails
have reached before, and the levels are the distances from the start.
-/

namespace Linkage

namespace Quest

variable {q : Quest} {start : Int64} {n : Nat} {t : Trail}

theorem step_free (hm : ∀ id, q.meets id = true) (p : Place) (id : Int64) :
    q.step p id = (id, true) := by
  simp [step, hm]

/-- Without a requirement, an entity on a trail was reached when the trail came by. -/
theorem visited_reached (hm : ∀ id, q.meets id = true) {id : Int64}
    (ht : t ∈ q.level start n) (hv : id ∈ t.entities) :
    ∃ m ≤ n, ∃ u ∈ q.level start m, u.here = (id, true) := by
  obtain ⟨as, bs, hsplit⟩ := List.append_of_mem hv
  have hbegin : as ++ [id] <+: t.entities := ⟨bs, by simp [hsplit]⟩
  obtain ⟨m, hle, u, hu, he⟩ := level_beginning ht (by simp) hbegin
  refine ⟨m, hle, u, hu, ?_⟩
  rw [(level_route hu).here_of_entities he]
  simp [hm]

/-- Without a requirement, every neighbour that may be entered is reached by the next level, also
one that is on the trail already. -/
theorem neighbour_reached (hm : ∀ id, q.meets id = true) {id : Int64}
    (ht : t ∈ q.level start n) (hn : id ∈ q.next t.here.1) (hp : q.Passable id) :
    ∃ m ≤ n + 1, ∃ u ∈ q.level start m, u.here = q.step t.here id := by
  by_cases hv : id ∈ t.entities
  · obtain ⟨m, hle, u, hu, he⟩ := visited_reached hm ht hv
    refine ⟨m, by omega, u, hu, ?_⟩
    rw [he, step_free hm]
  · exact level_closed ht ⟨hn, hp, hv⟩

end Quest

namespace Graph

variable {g : Graph} {start goal : Int64} {avoided : List Int64}

/-- The end of a walk that may be gone is reached by the level that is as deep as the walk is long.
-/
theorem IsWalk.reached {target : Int64} {ids : List Int64} (hw : g.IsWalk start target ids)
    (hp : ∀ id ∈ ids.tail, (g.quest goal avoided none).Passable id) :
    ∃ n ≤ edges ids, ∃ t ∈ (g.quest goal avoided none).level start n,
      t.here = (target, true) := by
  have hany : ids.any (g.quest goal avoided none).meets = true :=
    List.any_eq_true.mpr ⟨start, List.mem_of_mem_head? hw.first, rfl⟩
  rw [← hany]
  refine walk_reached hw fun as id next bs hs n _ t ht _ hnext => ?_
  exact Quest.neighbour_reached (fun _ => rfl) ht hnext (hp next (mem_tail_of_split hs))

theorem Connects.reached {maxDegrees : Nat} {ids : List Int64}
    (h : g.Connects start goal maxDegrees avoided ids) :
    ∃ n ≤ edges ids, ∃ t ∈ (g.quest goal avoided none).level start n, t.here = (goal, true) :=
  h.walk.reached h.passable

/-- **Complete and shortest.** Without required sources a path is found exactly when some walk of
at most `maxDegrees` steps connects the two ends with no avoided entity between them, and then
it is such a walk itself, and no other has fewer steps. An entity is a path to itself. -/
theorem finds_shortest_walk (g : Graph) (start goal : Int64) (maxDegrees : Nat)
    (avoided : List Int64) :
    ((g.shortestPath start goal maxDegrees avoided none).isSome ↔
      ∃ ids, g.Connects start goal maxDegrees avoided ids) ∧
    (∀ path, g.shortestPath start goal maxDegrees avoided none = some path →
      g.Connects start goal maxDegrees avoided path ∧
      ∀ ids, g.Connects start goal maxDegrees avoided ids → edges path ≤ edges ids) ∧
    g.shortestPath start start maxDegrees avoided none = some [start] := by
  refine ⟨⟨?_, ?_⟩, ?_, ?_⟩
  · intro hs
    obtain ⟨path, hp⟩ := Option.isSome_iff_exists.mp hs
    exact ⟨path, (shortestPath_sound hp).1⟩
  · rintro ⟨ids, hc⟩
    obtain ⟨n, hn, t, ht, hd⟩ := hc.reached
    have hbound := hc.bounded
    rw [shortestPath_eq_some.mpr ⟨n, by omega, t, ht, hd, rfl⟩]
    rfl
  · intro path hpath
    refine ⟨(shortestPath_sound hpath).1, fun ids hc => ?_⟩
    obtain ⟨n, _, t, ht, hd, rfl⟩ := shortestPath_eq_some.mp hpath
    obtain ⟨m, hm, u, hu, hud⟩ := hc.reached
    obtain rfl := Quest.level_unique ht hu (hd.trans hud.symm)
    simpa [edges, Quest.level_length hu] using hm
  · exact shortestPath_eq_some.mpr
      ⟨0, Nat.zero_le _, _, List.mem_singleton_self _, rfl, rfl⟩

end Graph

end Linkage
