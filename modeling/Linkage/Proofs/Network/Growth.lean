import Linkage.Graph.Network
import Linkage.Proofs.Network.Vicinity

/-!
How a network grows.

* `Growth.Absorbed`: what a list of candidates makes of a growth.
* `Graph.Surveyed`: after some rounds exactly the vicinity is included, and only the latest
  entities can have neighbours outside it. `surveyed_core` is the start, `Surveyed.round` a round.
* `Graph.Gathered`: what all rounds come to, stopped by the limit or not (`buildOut_gathered`).
-/

namespace Linkage

/-- New entities are added once each, where they come first. -/
theorem includeAll_eq (included ids : List Int64) :
    includeAll included ids = included ++ (ids.filter fun id => id ∉ included).eraseDups := by
  unfold includeAll
  induction ids generalizing included with
  | nil => simp
  | cons first rest ih =>
    rw [List.foldl_cons, ih]
    by_cases hin : first ∈ included
    · rw [if_pos hin, List.filter_cons_of_neg (by simpa using hin)]
    · have hlater : (rest.filter fun id => id ∉ included ++ [first]) =
          (rest.filter fun id => id ∉ included).filter fun id => !id == first := by
        rw [List.filter_filter]
        apply List.filter_congr
        intro id _
        simp [and_comm, beq_eq_decide]
      rw [if_neg hin, List.filter_cons_of_pos (by simpa using hin), List.eraseDups_cons, hlater,
        List.append_assoc, List.singleton_append]

theorem includeAll_nil (ids : List Int64) : includeAll [] ids = ids.eraseDups := by
  rw [includeAll_eq]
  simp

theorem mem_includeAll {included ids : List Int64} {id : Int64} :
    id ∈ includeAll included ids ↔ id ∈ included ∨ id ∈ ids := by
  rw [includeAll_eq, List.mem_append, List.mem_eraseDups, List.mem_filter, decide_eq_true_eq]
  by_cases hin : id ∈ included <;> simp [hin]

theorem mem_includeAll_nil {ids : List Int64} {id : Int64} :
    id ∈ includeAll [] ids ↔ id ∈ ids := by
  rw [mem_includeAll, or_iff_right List.not_mem_nil]

theorem nodup_includeAll {included ids : List Int64} (h : included.Nodup) :
    (includeAll included ids).Nodup := by
  unfold includeAll
  induction ids generalizing included with
  | nil => exact h
  | cons first rest ih =>
    rw [List.foldl_cons]
    apply ih
    split
    · exact h
    · rename_i hnew
      rw [← List.concat_eq_append]
      exact h.concat hnew

/-! ## One round -/

/-- What a list of candidates makes of a growth: new ones are added at the end, up to the limit,
and one is left over exactly if it stops there. -/
structure Growth.Absorbed (limit : Nat) (ids : List Int64) (g after : Growth) : Prop where
  added : ∃ new, after.included = g.included ++ new ∧ after.fresh = g.fresh ++ new ∧
    ∀ id ∈ new, id ∈ ids
  nodup : g.included.Nodup → after.included.Nodup
  bounded : after.included.length ≤ max limit g.included.length
  all : after.limitReached = false → ∀ id ∈ ids, id ∈ after.included
  full : g.limitReached = false → after.limitReached = true →
    limit ≤ after.included.length ∧ ∃ id ∈ ids, id ∉ after.included

namespace Growth

variable {limit : Nat} {g after : Growth} {first : Int64} {rest : List Int64}

theorem absorbed_nil (limit : Nat) (g : Growth) : Absorbed limit [] g g where
  added := ⟨[], by simp, by simp, nofun⟩
  nodup := id
  bounded := Nat.le_max_right _ _
  all := nofun
  full hf ht := by cases hf.symm.trans ht

theorem Absorbed.known (h : Absorbed limit rest g after) (hin : first ∈ g.included) :
    Absorbed limit (first :: rest) g after := by
  obtain ⟨⟨new, hinc, hfresh, hnew⟩, hnodup, hbounded, hall, hfull⟩ := h
  refine ⟨⟨new, hinc, hfresh, fun id hid => List.mem_cons_of_mem _ (hnew id hid)⟩, hnodup,
    hbounded, ?_, ?_⟩
  · intro hf
    refine List.forall_mem_cons.mpr ⟨?_, hall hf⟩
    rw [hinc]
    exact List.mem_append_left _ hin
  · intro hf ht
    obtain ⟨hle, id, hid, hout⟩ := hfull hf ht
    exact ⟨hle, id, List.mem_cons_of_mem _ hid, hout⟩

theorem absorbed_stop (hout : first ∉ g.included) (hlimit : limit ≤ g.included.length) :
    Absorbed limit (first :: rest) g { g with limitReached := true } where
  added := ⟨[], by simp, by simp, nofun⟩
  nodup := id
  bounded := Nat.le_max_right _ _
  all := nofun
  full _ _ := ⟨hlimit, first, List.mem_cons_self, hout⟩

theorem Absorbed.push (h : Absorbed limit rest
      { g with included := g.included ++ [first], fresh := g.fresh ++ [first] } after)
    (hout : first ∉ g.included) (hroom : ¬ limit ≤ g.included.length) :
    Absorbed limit (first :: rest) g after := by
  obtain ⟨⟨new, hinc, hfresh, hnew⟩, hnodup, hbounded, hall, hfull⟩ := h
  refine ⟨⟨first :: new, by simp [hinc], by simp [hfresh], ?_⟩, ?_, ?_, ?_, ?_⟩
  · refine List.forall_mem_cons.mpr ⟨List.mem_cons_self, fun id hid => ?_⟩
    exact List.mem_cons_of_mem _ (hnew id hid)
  · intro hg
    apply hnodup
    rw [← List.concat_eq_append]
    exact hg.concat hout
  · simp only [List.length_append, List.length_singleton] at hbounded
    omega
  · intro hf
    refine List.forall_mem_cons.mpr ⟨?_, hall hf⟩
    simp [hinc]
  · intro hf ht
    obtain ⟨hle, id, hid, hout⟩ := hfull hf ht
    exact ⟨hle, id, List.mem_cons_of_mem _ hid, hout⟩

/-- Candidates are absorbed one after another, up to the limit. -/
theorem absorb_absorbed (limit : Nat) (g : Growth) (ids : List Int64) :
    Absorbed limit ids g (g.absorb limit ids) := by
  induction ids generalizing g with
  | nil => exact absorbed_nil limit g
  | cons first rest ih =>
    unfold absorb
    by_cases hin : first ∈ g.included
    · rw [if_pos hin]
      exact (ih g).known hin
    · rw [if_neg hin]
      by_cases hlimit : limit ≤ g.included.length
      · rw [if_pos hlimit]
        exact absorbed_stop hin hlimit
      · rw [if_neg hlimit]
        exact (ih _).push hin hlimit

end Growth

/-! ## All rounds -/

namespace Graph

variable {g : Graph} {core included latest : List Int64} {limit n : Nat}

/-- What is included after `n` rounds that were not stopped. -/
structure Surveyed (g : Graph) (core : List Int64) (limit n : Nat)
    (included latest : List Int64) : Prop where
  nodup : included.Nodup
  mem : ∀ id, id ∈ included ↔ id ∈ g.vicinity {id | id ∈ core} n
  recent : ∀ id ∈ latest, id ∈ included
  closed : ∀ u ∈ included, u ∉ latest → ∀ v, g.Joined u v → v ∈ included
  bounded : included.length ≤ max limit core.length

/-- What the rounds leave behind: all of the vicinity, or as much as the limit allows. -/
structure Gathered (g : Graph) (core : List Int64) (limit n : Nat) (entities : List Int64)
    (limitReached : Bool) : Prop where
  nodup : entities.Nodup
  holds : ∀ id ∈ core, id ∈ entities
  near : ∀ id ∈ entities, id ∈ g.vicinity {id | id ∈ core} n
  bounded : entities.length ≤ max limit core.length
  all : limitReached = false → ∀ id ∈ g.vicinity {id | id ∈ core} n, id ∈ entities
  full : limitReached = true →
    limit ≤ entities.length ∧ ∃ id ∈ g.vicinity {id | id ∈ core} n, id ∉ entities

/-- Before the first round. -/
theorem surveyed_core (g : Graph) (limit : Nat) (h : core.Nodup) :
    g.Surveyed core limit 0 core core where
  nodup := h
  mem id := by rw [mem_vicinity_zero, Set.mem_ofPred_eq]
  recent _ := id
  closed u hu hnew := absurd hu hnew
  bounded := Nat.le_max_right _ _

namespace Surveyed

theorem core_mem (h : g.Surveyed core limit n included latest) : ∀ id ∈ core, id ∈ included :=
  fun id hid => (h.mem id).mpr (base_subset_vicinity n hid)

theorem gathered (h : g.Surveyed core limit n included latest) :
    g.Gathered core limit n included false where
  nodup := h.nodup
  holds := h.core_mem
  near id := (h.mem id).mp
  bounded := h.bounded
  all _ id := (h.mem id).mpr
  full := nofun

theorem mem_candidates {id : Int64} :
    id ∈ latest.flatMap g.neighbours ↔ ∃ u ∈ latest, g.Joined u id := by
  simp only [List.mem_flatMap, mem_neighbours]

/-- A neighbour of an included entity is included, or a candidate of the next round. -/
theorem neighbour (h : g.Surveyed core limit n included latest) {u v : Int64}
    (hu : u ∈ included) (hj : g.Joined u v) :
    v ∈ included ∨ v ∈ latest.flatMap g.neighbours := by
  by_cases hnew : u ∈ latest
  · exact .inr (mem_candidates.mpr ⟨u, hnew, hj⟩)
  · exact .inl (h.closed u hu hnew v hj)

theorem candidate_near (h : g.Surveyed core limit n included latest) {id : Int64}
    (hid : id ∈ latest.flatMap g.neighbours) :
    id ∈ g.vicinity {id | id ∈ core} (n + 1) := by
  obtain ⟨u, hu, hj⟩ := mem_candidates.mp hid
  exact mem_vicinity_succ.mpr (.inr ⟨u, (h.mem u).mp (h.recent u hu), hj⟩)

variable {after : Growth}

/-- What a round adds to the included entities stays within one step more. -/
theorem absorbed_near (h : g.Surveyed core limit n included latest)
    (ha : Growth.Absorbed limit (latest.flatMap g.neighbours) ⟨included, [], false⟩ after) :
    ∀ id ∈ after.included, id ∈ g.vicinity {id | id ∈ core} (n + 1) := by
  obtain ⟨new, hinc, _, hnew⟩ := ha.added
  rw [hinc]
  intro id hid
  rcases List.mem_append.mp hid with hid | hid
  · exact vicinity_mono (Nat.le_succ n) ((h.mem id).mp hid)
  · exact h.candidate_near (hnew id hid)

theorem absorbed_bounded (h : g.Surveyed core limit n included latest)
    (ha : Growth.Absorbed limit (latest.flatMap g.neighbours) ⟨included, [], false⟩ after) :
    after.included.length ≤ max limit core.length := by
  have hround := ha.bounded
  have hbefore := h.bounded
  dsimp only at hround
  omega

/-- A round that is not stopped includes all that is one step further. -/
theorem round (h : g.Surveyed core limit n included latest)
    (ha : Growth.Absorbed limit (latest.flatMap g.neighbours) ⟨included, [], false⟩ after)
    (hgo : after.limitReached = false) :
    g.Surveyed core limit (n + 1) after.included after.fresh := by
  obtain ⟨new, hinc, hfresh, _⟩ := ha.added
  have hkept (id : Int64) (hid : id ∈ included) : id ∈ after.included := by
    rw [hinc]
    exact List.mem_append_left _ hid
  have hnext (u v : Int64) (hu : u ∈ included) (hj : g.Joined u v) : v ∈ after.included :=
    (h.neighbour hu hj).elim (hkept v) (ha.all hgo v)
  refine ⟨ha.nodup h.nodup, fun id => ⟨h.absorbed_near ha id, fun hid => ?_⟩, ?_, ?_,
    h.absorbed_bounded ha⟩
  · rcases mem_vicinity_succ.mp hid with hid | ⟨u, hu, hj⟩
    · exact hkept id ((h.mem id).mpr hid)
    · exact hnext u id ((h.mem u).mpr hu) hj
  · intro id hid
    rw [hinc]
    exact List.mem_append_right _ (by simpa [hfresh] using hid)
  · intro u hu hnew v hj
    rw [hinc] at hu
    have hold : u ∈ included :=
      (List.mem_append.mp hu).resolve_right (by simpa [hfresh] using hnew)
    exact hnext u v hold hj

theorem stopped (h : g.Surveyed core limit n included latest)
    (ha : Growth.Absorbed limit (latest.flatMap g.neighbours) ⟨included, [], false⟩ after)
    (hstop : after.limitReached = true) {m : Nat} (hm : n + 1 ≤ m) :
    g.Gathered core limit m after.included true := by
  obtain ⟨new, hinc, _, _⟩ := ha.added
  obtain ⟨hlimit, id, hid, hout⟩ := ha.full rfl hstop
  refine ⟨ha.nodup h.nodup, fun id hid => ?_, fun id hid => ?_, h.absorbed_bounded ha, nofun, ?_⟩
  · rw [hinc]
    exact List.mem_append_left _ (h.core_mem id hid)
  · exact vicinity_mono hm (h.absorbed_near ha id hid)
  · exact fun _ => ⟨hlimit, id, vicinity_mono hm (h.candidate_near hid), hout⟩

/-- Nothing is further away when nothing is new. -/
theorem exhausted (h : g.Surveyed core limit n included []) {m : Nat} (hm : n ≤ m) :
    g.Gathered core limit m included false where
  nodup := h.nodup
  holds := h.core_mem
  near id hid := vicinity_mono hm ((h.mem id).mp hid)
  bounded := h.bounded
  all _ := vicinity_le_closed (s := {id | id ∈ included}) h.core_mem
    (fun u hu v hj => h.closed u hu List.not_mem_nil v hj) m
  full := nofun

end Surveyed

/-- All rounds, whether the limit stops them or not. -/
theorem buildOut_gathered (h : g.Surveyed core limit n included latest) (rounds : Nat) :
    g.Gathered core limit (n + rounds) (buildOut g.neighbours limit rounds included latest).1
      (buildOut g.neighbours limit rounds included latest).2 := by
  induction rounds generalizing n included latest with
  | zero => exact h.gathered
  | succ rounds ih =>
    have ha := Growth.absorb_absorbed limit ⟨included, [], false⟩ (latest.flatMap g.neighbours)
    simp only [buildOut]
    split
    · rename_i hstop
      exact h.stopped ha hstop (by omega)
    · rename_i hgo
      have hround := h.round ha (by simpa using hgo)
      split
      · rename_i hempty
        rw [List.isEmpty_iff.mp hempty] at hround
        exact hround.exhausted (by omega)
      · rw [show n + (rounds + 1) = n + 1 + rounds by omega]
        exact ih hround

end Graph

end Linkage
