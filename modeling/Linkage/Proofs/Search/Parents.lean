import Linkage.Proofs.Search.Exploration
import Linkage.Proofs.Search.Found
import Linkage.Proofs.Search.Sources
import Mathlib.Data.List.ProdSigma

/-!
The places from which a search visits others are a tree, in every round of its loop.

* `Exploration.IsTree`: every place that was visited is the origin or was visited from one place,
  which lies a level before it and is next to it.
* `Exploration.OnTrack`, `OnTrack.turn?`: a search with a queue keeps to the levels.
* `search_keeps_tree`: hence all loops end, and the path that is found is the shortest path.
-/

namespace Linkage

/-! ## What is still to be found -/

namespace Quest

variable {q : Quest} {bound : Nat} {reached : List Place} {level ts us : List Trail} {t : Trail}

/-- The trail to be found among those of a level that are yet to be extended and those of the levels
after it, where the next level begins with some trails. -/
def rest? (q : Quest) (bound : Nat) (reached : List Place) (level longer : List Trail) :
    Option Trail :=
  match level.find? q.isDone with
  | some t => some t
  | none =>
    match bound with
    | 0 => none
    | bound + 1 =>
      let (reached, more) := q.advance reached level
      if (longer ++ more).isEmpty then none else q.search bound reached (longer ++ more)

theorem rest?_level : q.rest? bound reached level [] = q.search bound reached level := by
  cases bound <;> rw [rest?, search] <;> cases level.find? q.isDone <;> rfl

theorem rest?_done (h : q.isDone t = true) : q.rest? bound reached (t :: ts) us = some t := by
  unfold rest?
  rw [List.find?_cons_of_pos h]

theorem rest?_last (h : ¬ q.isDone t = true) :
    q.rest? 0 reached (t :: ts) us = q.rest? 0 reached ts us := by
  rw [rest?, rest?, List.find?_cons_of_neg h]

theorem rest?_extend (h : ¬ q.isDone t = true) :
    q.rest? (bound + 1) reached (t :: ts) us =
      q.rest? (bound + 1) (q.extend t reached (q.next t.here.1)).1 ts
        (us ++ (q.extend t reached (q.next t.here.1)).2) := by
  rw [rest?, rest?, List.find?_cons_of_neg h]
  simp only [advance, List.append_assoc]
  cases ts.find? q.isDone <;> rfl

theorem rest?_deeper (h : us ≠ []) :
    q.rest? (bound + 1) reached [] us = q.rest? bound reached us [] := by
  rw [rest?_level, rest?, List.find?_nil]
  simp [advance, h]

theorem rest?_nil : q.rest? bound reached [] [] = none := by
  cases bound <;> rfl

theorem before_of_extend {ids : List Int64} {u : Trail} (h : u ∈ (q.extend t reached ids).2) :
    u.before = t.here :: t.before := by
  rw [extend_eq] at h
  obtain ⟨id, -, rfl⟩ := List.mem_map.mp ((Trail.firsts_sublist _ _).subset h)
  rfl

theorem Route.next_of_before {start : Int64} {p : Place} {before : List Place}
    (h : q.Route start t) (hbefore : t.before = p :: before) : t.here.1 ∈ q.next p.1 := by
  cases h with
  | origin => cases hbefore
  | onward _ hopen =>
    cases hbefore
    exact hopen.1

/-- A route passes no entities but its start and what is next to others. -/
theorem Route.known {start : Int64} {known : List Int64} (h : q.Route start t)
    (hnext : ∀ a, ∀ b ∈ q.next a, b ∈ known) : t.entities ⊆ start :: known := by
  induction h with
  | origin => simp
  | @onward t id _ hopen ih =>
    rw [entities_onward]
    exact List.append_subset.mpr ⟨ih, by simp [hnext _ id hopen.1]⟩

end Quest

namespace Exploration

variable {q : Quest} {start : Int64} {maxDegrees : UInt32} {e : Exploration} {rounds : Nat}
  {trails ts us : List Trail} {t : Trail} {n : Nat}

/-- A search that goes from level to level. -/
structure Stands (q : Quest) (start : Int64) (maxDegrees : UInt32) (e : Exploration)
    (trails ts us : List Trail) (n : Nat) : Prop where
  tracks : Tracks q start maxDegrees e trails
  queue : e.queue = (ts ++ us).map Trail.mark
  pending : ∀ t ∈ ts ++ us, t ∈ trails
  level : ∀ t ∈ ts, t.before.length = n
  longer : ∀ t ∈ us, t.before.length = n + 1
  finds : q.rest? (maxDegrees.toNat - n) e.visited ts us =
    q.search maxDegrees.toNat [q.start start] [q.origin start]

/-- Some trails have led to what was visited, level by level. -/
def OnTrack (q : Quest) (start : Int64) (maxDegrees : UInt32) (e : Exploration) : Prop :=
  ∃ trails ts us n, Stands q start maxDegrees e trails ts us n

/-- What a turn may come to. -/
inductive Proceeds (q : Quest) (start : Int64) (maxDegrees : UInt32) (e : Exploration) :
    Option Turn → Prop
  | ended : q.search maxDegrees.toNat [q.start start] [q.origin start] = none →
      Proceeds q start maxDegrees e (some .ended)
  | found {t : Trail} : q.search maxDegrees.toNat [q.start start] [q.origin start] = some t →
      Proceeds q start maxDegrees e (some (.found t.entities))
  | onward {e' : Exploration} : OnTrack q start maxDegrees e' →
      e'.passed.length = e.passed.length + 1 →
      Proceeds q start maxDegrees e (some (.onward e'))

theorem onTrack_initial : OnTrack q start maxDegrees (initial (q.start start)) :=
  ⟨[q.origin start], [q.origin start], [], 0, .initial, rfl, fun _ ht => ht,
    List.forall_mem_singleton.mpr rfl, nofun, Quest.rest?_level⟩

namespace Stands

variable (h : Stands q start maxDegrees e trails (t :: ts) us n)
include h

theorem head_mem : t ∈ trails := h.pending t List.mem_cons_self

theorem tail_pending : ∀ u ∈ ts ++ us, u ∈ trails := fun u hu =>
  h.pending u (List.mem_cons_of_mem t hu)

theorem tail_level : ∀ u ∈ ts, u.before.length = n := fun u hu =>
  h.level u (List.mem_cons_of_mem t hu)

theorem head_queue :
    e.queue = (t.here, UInt32.ofNat t.before.length) :: (ts ++ us).map Trail.mark := h.queue

/-- The depth at which the first place is queued is the depth of its level. -/
theorem deep_iff : maxDegrees ≤ UInt32.ofNat t.before.length ↔ maxDegrees.toNat ≤ n := by
  rw [UInt32.le_iff_toNat_le, h.tracks.toNat_depth h.head_mem, h.level t List.mem_cons_self]

theorem turn?_goal (hdone : t.here = (q.goal, true)) (hrounds : t.before.length < rounds) :
    e.turn? q (q.start start) maxDegrees rounds = some (.found t.entities) ∧
      q.search maxDegrees.toNat [q.start start] [q.origin start] = some t := by
  have hfinds := h.finds
  rw [Quest.rest?_done (Quest.isDone_iff.mpr hdone)] at hfinds
  have htracks := h.tracks.pass h.head_queue
  have hentities : (t.before.map (·.1)).reverse ++ [t.here.1] = t.entities := by
    simp [Trail.entities]
  rw [Exploration.turn?_goal h.head_queue hdone, htracks.walkBack?_eq h.head_mem hrounds, ← hfinds,
    ← hentities]
  exact ⟨rfl, rfl⟩

/-- The trails of the last level are not extended. -/
theorem pass_deep (hdone : t.here ≠ (q.goal, true)) (hdeep : maxDegrees.toNat ≤ n) :
    Stands q start maxDegrees
      (e.pass t.here (UInt32.ofNat t.before.length) ((ts ++ us).map Trail.mark))
      trails ts us n where
  tracks := h.tracks.pass h.head_queue
  queue := rfl
  pending := h.tail_pending
  level := h.tail_level
  longer := h.longer
  finds := by
    have hlast : maxDegrees.toNat - n = 0 := Nat.sub_eq_zero_of_le hdeep
    have hfinds := h.finds
    rwa [hlast, Quest.rest?_last (mt Quest.isDone_iff.mp hdone), ← hlast] at hfinds

/-- A trail is extended into the next level. -/
theorem expand (hdone : t.here ≠ (q.goal, true)) (hdeep : n < maxDegrees.toNat)
    (hrounds : t.before.length < rounds) :
    ∃ e', expand? q rounds t.here (UInt32.ofNat t.before.length)
        (e.pass t.here (UInt32.ofNat t.before.length) ((ts ++ us).map Trail.mark))
        (q.next t.here.1) = some e' ∧
      Stands q start maxDegrees e' (trails ++ (q.extend t e.visited (q.next t.here.1)).2) ts
        (us ++ (q.extend t e.visited (q.next t.here.1)).2) n ∧
      e'.passed.length = e.passed.length + 1 := by
  have hlength : t.before.length = n := h.level t List.mem_cons_self
  have htracks := h.tracks.pass h.head_queue
  obtain ⟨e', hexpand, htracks', hvisited, hpassed, hqueue⟩ :=
    htracks.expand?_eq h.head_mem (fun _ hid => hid) hrounds (hlength ▸ hdeep)
  refine ⟨e', hexpand, ?_, ?_⟩
  · obtain ⟨bound, hbound⟩ : ∃ bound, maxDegrees.toNat - n = bound + 1 :=
      ⟨maxDegrees.toNat - n - 1, by omega⟩
    refine ⟨htracks', ?_, ?_, h.tail_level, ?_, ?_⟩
    · rw [hqueue, pass, ← List.map_append, List.append_assoc]
    · rw [← List.append_assoc]
      exact List.forall_mem_append.mpr ⟨fun u hu => List.mem_append_left _ (h.tail_pending u hu),
        fun u hu => List.mem_append_right _ hu⟩
    · refine List.forall_mem_append.mpr ⟨h.longer, fun u hu => ?_⟩
      rw [Quest.before_of_extend hu, List.length_cons, hlength]
    · have hfinds := h.finds
      rw [hbound, Quest.rest?_extend (mt Quest.isDone_iff.mp hdone), ← hbound] at hfinds
      rw [hvisited]
      exact hfinds
  · rw [hpassed]
    exact List.length_append

theorem turn? (hrounds : t.before.length < rounds) :
    Proceeds q start maxDegrees e (e.turn? q (q.start start) maxDegrees rounds) := by
  by_cases hdone : t.here = (q.goal, true)
  · obtain ⟨hturn, hsearch⟩ := h.turn?_goal hdone hrounds
    rw [hturn]
    exact .found hsearch
  by_cases hdeep : maxDegrees ≤ UInt32.ofNat t.before.length
  · rw [turn?_deep h.head_queue hdone hdeep]
    exact .onward ⟨_, _, _, _, h.pass_deep hdone (h.deep_iff.mp hdeep)⟩ List.length_append
  · have hmore : n < maxDegrees.toNat := Nat.lt_of_not_le (mt h.deep_iff.mpr hdeep)
    obtain ⟨e', hexpand, hstands, hpassed⟩ := h.expand hdone hmore hrounds
    rw [turn?_expand h.head_queue hdone hdeep, hexpand]
    exact .onward ⟨_, _, _, _, hstands⟩ hpassed

omit h in
/-- When a level is done with, the next one is begun. -/
theorem deeper (h : Stands q start maxDegrees e trails [] us n) (hne : us ≠ []) :
    Stands q start maxDegrees e trails us [] (n + 1) where
  tracks := h.tracks
  queue := by rw [h.queue, List.nil_append, List.append_nil]
  pending := by
    rw [List.append_nil]
    exact h.pending
  level := h.longer
  longer := nofun
  finds := by
    obtain ⟨u, hu⟩ := List.exists_mem_of_ne_nil us hne
    have hshallow := h.tracks.shallow u (h.pending u hu)
    rw [h.longer u hu] at hshallow
    have hbound : maxDegrees.toNat - n = maxDegrees.toNat - (n + 1) + 1 := by omega
    have hfinds := h.finds
    rwa [hbound, Quest.rest?_deeper hne] at hfinds

end Stands

/-- A turn keeps a search on its track, or it ends it with what is to be found. -/
theorem OnTrack.turn? (h : OnTrack q start maxDegrees e)
    (hrounds : ∀ t, q.Route start t → t.before.length < rounds) :
    Proceeds q start maxDegrees e (e.turn? q (q.start start) maxDegrees rounds) := by
  obtain ⟨trails, ts, us, n, hstands⟩ := h
  cases ts with
  | cons t ts => exact hstands.turn? (hrounds t (hstands.tracks.routes t hstands.head_mem))
  | nil =>
    cases us with
    | cons t us =>
      have hdeeper := hstands.deeper (List.cons_ne_nil t us)
      exact hdeeper.turn? (hrounds t (hdeeper.tracks.routes t hdeeper.head_mem))
    | nil =>
      have hfinds := hstands.finds
      rw [Quest.rest?_nil] at hfinds
      rw [turn?_ended hstands.queue]
      exact .ended hfinds.symm

theorem onTrack_of_explored (h : q.Explored start maxDegrees rounds e)
    (hrounds : ∀ t, q.Route start t → t.before.length < rounds) : OnTrack q start maxDegrees e := by
  induction h with
  | begins => exact onTrack_initial
  | goesOn _ hturn ih =>
    have hproceeds := ih.turn? hrounds
    rw [hturn] at hproceeds
    cases hproceeds with
    | onward htrack => exact htrack

/-- A search that queues no more than so many places ends after as many turns, and finds what is to
be found. -/
theorem run?_eq {turns most : Nat} (h : OnTrack q start maxDegrees e)
    (hrounds : ∀ t, q.Route start t → t.before.length < rounds)
    (hmost : ∀ e, OnTrack q start maxDegrees e → e.queued.length ≤ most)
    (hturns : most ≤ e.passed.length + turns) :
    e.run? q (q.start start) maxDegrees rounds turns =
      some ((q.search maxDegrees.toNat [q.start start] [q.origin start]).map Trail.entities) := by
  induction turns generalizing e with
  | zero =>
    -- All that may be queued has been passed.
    have hqueue : e.queue = [] := by
      have hlength := hmost e h
      rw [queued, List.length_append] at hlength
      exact List.length_eq_zero_iff.mp (by omega)
    have hproceeds := h.turn? hrounds
    rw [turn?_ended hqueue] at hproceeds
    cases hproceeds with
    | ended hnone =>
      rw [run?, hqueue, hnone]
      rfl
  | succ turns ih =>
    have hproceeds := h.turn? hrounds
    rw [run?]
    cases hturn : e.turn? q (q.start start) maxDegrees rounds with
    | none =>
      rw [hturn] at hproceeds
      cases hproceeds
    | some turn =>
      rw [hturn] at hproceeds
      cases hproceeds with
      | ended hnone =>
        rw [hnone]
        rfl
      | found hfound =>
        rw [hfound]
        rfl
      | onward htrack hpassed => exact ih htrack (by omega)

/-! ## The tree -/

/-- Each place that was visited is the origin, which has no parent, or has one parent. A parent was
visited too, lies one level before the place, and is next to it. -/
structure IsTree (q : Quest) (origin : Place) (maxDegrees : UInt32) (e : Exploration) : Prop where
  /-- No place is queued twice. -/
  once : (e.queued.map (·.1)).Nodup
  visited : ∀ p, p ∈ e.visited ↔ ∃ depth, (p, depth) ∈ e.queued
  root : (origin, 0) ∈ e.queued ∧ ∀ up, (origin, up) ∉ e.parents
  parent : ∀ p depth, (p, depth) ∈ e.queued → p ≠ origin →
    ∃ up upDepth, (∀ other, (p, other) ∈ e.parents ↔ other = up) ∧ (up, upDepth) ∈ e.queued ∧
      depth.toNat = upDepth.toNat + 1 ∧ p.1 ∈ q.next up.1
  /-- No entry is replaced by a later one. -/
  kept : (e.parents.map (·.1)).Nodup
  shallow : ∀ p depth, (p, depth) ∈ e.queued → depth ≤ maxDegrees

/-- Every walk back from a place that was visited ends, and all of them at the origin. -/
structure WalksEnd (origin : Place) (rounds : Nat) (e : Exploration) : Prop where
  onPath : ∀ p ∈ e.visited, ∀ id, ∃ found, e.onPath? id rounds p = some found
  walkBack : ∀ p ∈ e.visited, ∃ path, e.walkBack? origin rounds p [p.1] = some (origin, path)

namespace Tracks

variable (h : Tracks q start maxDegrees e trails)
include h

theorem isTree : e.IsTree q (q.start start) maxDegrees where
  once := by
    rw [h.queued, List.map_map]
    exact h.once
  visited p := by
    simp only [h.mem_visited, h.mem_queued]
    constructor
    · rintro ⟨t, ht, hhere⟩
      exact ⟨_, t, ht, hhere, rfl⟩
    · rintro ⟨_, t, ht, hhere, _⟩
      exact ⟨t, ht, hhere⟩
  root := by
    refine ⟨h.mem_queued.mpr ⟨_, h.origin, rfl, rfl⟩, fun up hup => ?_⟩
    obtain ⟨t, ht, hhere, hbefore⟩ := h.mem_parents.mp hup
    rw [(h.here_eq_origin ht).mp hhere] at hbefore
    cases hbefore
  parent p depth hp hne := by
    obtain ⟨t, ht, rfl, rfl⟩ := h.mem_queued.mp hp
    obtain ⟨up, before, hbefore⟩ := List.exists_cons_of_ne_nil (mt (h.here_eq_origin ht).mpr hne)
    have hup := h.lineage t ht up before hbefore
    refine ⟨up, _, fun other => ?_, h.mem_queued.mpr ⟨_, hup, rfl, rfl⟩, ?_, ?_⟩
    · constructor
      · intro hother
        obtain ⟨u, hu, hhere, hhead⟩ := h.mem_parents.mp hother
        rw [h.eq_of_here hu ht hhere, hbefore] at hhead
        exact (Option.some.inj hhead).symm
      · rintro rfl
        exact h.mem_parents.mpr ⟨t, ht, rfl, by rw [hbefore]; rfl⟩
    · rw [h.toNat_depth ht, h.toNat_depth hup, hbefore]
      rfl
    · exact (h.routes t ht).next_of_before hbefore
  kept := by
    have hlink {t : Trail} {entry : Place × Place} (hentry : t.link? = some entry) :
        entry.1 = t.here := by
      obtain ⟨before, -, rfl⟩ := Option.map_eq_some_iff.mp hentry
      rfl
    rw [h.parents, List.map_reverse, List.nodup_reverse]
    refine List.pairwise_map.mpr (List.pairwise_filterMap.mpr ?_)
    refine (List.pairwise_map.mp h.once).imp fun hne entry hentry entry' hentry' => ?_
    rwa [hlink hentry, hlink hentry']
  shallow p depth hp := by
    obtain ⟨t, ht, rfl, rfl⟩ := h.mem_queued.mp hp
    rw [UInt32.le_iff_toNat_le, h.toNat_depth ht]
    exact h.shallow t ht

theorem walksEnd (hrounds : ∀ t, q.Route start t → t.before.length < rounds) :
    e.WalksEnd (q.start start) rounds where
  onPath p hp id := by
    obtain ⟨t, ht, rfl⟩ := h.mem_visited.mp hp
    exact ⟨t.visits id, h.onPath?_eq ht (hrounds t (h.routes t ht))⟩
  walkBack p hp := by
    obtain ⟨t, ht, rfl⟩ := h.mem_visited.mp hp
    exact ⟨_, h.walkBack?_eq ht (hrounds t (h.routes t ht)) _⟩

end Tracks

theorem Tracks.length_queued {places : List Place} (h : Tracks q start maxDegrees e trails)
    (hplaces : ∀ t, q.Route start t → t.here ∈ places) : e.queued.length ≤ places.length := by
  have hsubset : trails.map Trail.here ⊆ places := by
    intro p hp
    obtain ⟨t, ht, rfl⟩ := List.mem_map.mp hp
    exact hplaces t (h.routes t ht)
  rw [h.queued, List.length_map, ← List.length_map Trail.here]
  exact h.once.length_le_of_subset hsubset

/-- In every round some trails have led to what was visited. -/
theorem tracks_of_iterated (h : q.Iterated start maxDegrees rounds e)
    (hrounds : ∀ t, q.Route start t → t.before.length < rounds) :
    ∃ trails, Tracks q start maxDegrees e trails := by
  cases h with
  | turns hexplored =>
    obtain ⟨trails, _, _, _, hstands⟩ := onTrack_of_explored hexplored hrounds
    exact ⟨trails, hstands.tracks⟩
  | @visits e₀ _ p depth rest ids hexplored hqueue _ hdepth hids hexpand =>
    obtain ⟨trails, _, _, _, hstands⟩ := onTrack_of_explored hexplored hrounds
    have htracks := hstands.tracks
    have hqueued : (p, depth) ∈ e₀.queued := by
      rw [queued, hqueue]
      exact List.mem_append_right _ List.mem_cons_self
    obtain ⟨t, ht, rfl, rfl⟩ := htracks.mem_queued.mp hqueued
    rw [UInt32.lt_iff_toNat_lt, htracks.toNat_depth ht] at hdepth
    obtain ⟨e', hexpand', htracks', -⟩ := (htracks.pass hqueue).expand?_eq ht
      (fun _ hid => hids.subset hid) (hrounds t (htracks.routes t ht)) hdepth
    cases hexpand.symm.trans hexpand'
    exact ⟨_, htracks'⟩

end Exploration

namespace Graph

variable {g : Graph} {start goal : Int64} {avoided : List Int64} {required : Option (List String)}
  {t : Trail}

/-- The places in which a search can be, its start aside. -/
def places (g : Graph) : List Place := g.fixture.ids ×ˢ [false, true]

theorem length_places (g : Graph) : g.places.length = 2 * g.fixture.entities.length := by
  rw [places, List.length_product, Fixture.ids, List.length_map, Nat.mul_comm]
  rfl

theorem mem_places {p : Place} (h : p.1 ∈ g.fixture.ids) : p ∈ g.places :=
  List.mem_product.mpr ⟨h, by cases p.2 <;> decide⟩

theorem route_places (h : (g.quest goal avoided required).Route start t) :
    t.here ∈ (g.quest goal avoided required).start start :: g.places := by
  cases h with
  | origin => exact List.mem_cons_self
  | onward _ hopen =>
    exact List.mem_cons_of_mem _ (mem_places (mem_neighbours.mp hopen.1).known)

theorem route_length (h : (g.quest goal avoided required).Route start t) :
    t.before.length ≤ g.fixture.entities.length := by
  have hknown := h.known fun _ _ hnext => (mem_neighbours.mp hnext).known
  have hlength := h.nodup.length_le_of_subset hknown
  rw [t.length_entities, List.length_cons, Fixture.ids, List.length_map] at hlength
  omega

end Graph

/-- **The parents of a search are a tree.** In every round of a search in an accepted fixture, each
place that was visited has one parent, a level before it and next to it, except for the origin,
which has none. So every walk back from a place ends, and ends at the origin; no place is queued
twice, so that there are at most two for each entity; and no depth is too large to be counted. No
loop thus takes more rounds than there may be places, whatever the bound on the steps of a path, and
what is found is the shortest path. -/
theorem search_keeps_tree (g : Graph) (start goal : Int64) (maxDegrees : UInt32)
    (avoided : List Int64) (required : Option (List String)) (rounds : Nat)
    (hrounds : 2 * g.fixture.entities.length < rounds) :
    let q := g.quest goal avoided required
    (∀ e, q.Iterated start maxDegrees rounds e →
      e.IsTree q (q.start start) maxDegrees ∧ e.WalksEnd (q.start start) rounds ∧
        (start ∈ g.fixture.ids → e.queued.length ≤ 2 * g.fixture.entities.length)) ∧
    q.explore? start maxDegrees rounds =
      some (g.shortestPath start goal maxDegrees.toNat avoided required) := by
  intro q
  have hdeep : ∀ t, q.Route start t → t.before.length < rounds := by
    intro t ht
    have := Graph.route_length ht
    omega
  constructor
  · intro e he
    obtain ⟨trails, htracks⟩ := Exploration.tracks_of_iterated he hdeep
    refine ⟨htracks.isTree, htracks.walksEnd hdeep, fun hstart => ?_⟩
    rw [← g.length_places]
    refine htracks.length_queued fun t ht => ?_
    rcases List.mem_cons.mp (Graph.route_places ht) with horigin | hknown
    · rw [horigin]
      exact Graph.mem_places hstart
    · exact hknown
  · have hmost : ∀ e, Exploration.OnTrack q start maxDegrees e → e.queued.length ≤ rounds := by
      rintro e ⟨trails, _, _, _, hstands⟩
      have hlength := hstands.tracks.length_queued fun t => Graph.route_places
      rw [List.length_cons, g.length_places] at hlength
      omega
    exact Exploration.run?_eq Exploration.onTrack_initial hdeep hmost (Nat.le_add_left _ _)

/-- The search from 3 to 5 for a path past the watch list, after its first turn. -/
def sharedPassageTurn : Exploration where
  passed := [((3, false), 0)]
  queue := [((1, false), 1), ((4, true), 1)]
  visited := [(4, true), (1, false), (3, false)]
  parents := [((4, true), (3, false)), ((1, false), (3, false))]

theorem sharedPassage_tree :
    3 ∈ Graph.sharedPassage.fixture.ids ∧ 2 * Graph.sharedPassage.fixture.entities.length < 11 ∧
    sharedPassageTurn.IsTree (Graph.sharedPassage.quest 5 [] (some ["WATCHLIST"])) (3, false)
      4294967295 ∧
    sharedPassageTurn.WalksEnd (3, false) 11 ∧ sharedPassageTurn.queued.length ≤ 10 ∧
    (Graph.sharedPassage.quest 5 [] (some ["WATCHLIST"])).explore? 3 4294967295 11 =
      some (Graph.sharedPassage.shortestPath 3 5 4294967295 [] (some ["WATCHLIST"])) := by
  have hknown : 3 ∈ Graph.sharedPassage.fixture.ids := by decide
  have hrounds : 2 * Graph.sharedPassage.fixture.entities.length < 11 := by decide
  obtain ⟨htree, hfinds⟩ := search_keeps_tree Graph.sharedPassage 3 5 4294967295 []
    (some ["WATCHLIST"]) 11 hrounds
  have hnext : (Graph.sharedPassage.quest 5 [] (some ["WATCHLIST"])).next 3 = [1, 4] := by
    simp [Graph.sharedPassage, Graph.quest, Graph.neighbours, Graph.relations, Relationship.touches,
      Relationship.opposite, List.mergeSort, List.MergeSort.Internal.splitInTwo]
  have hturn : (Exploration.initial (3, false)).turn?
      (Graph.sharedPassage.quest 5 [] (some ["WATCHLIST"])) (3, false) 4294967295 11 =
        some (.onward sharedPassageTurn) := by
    rw [Exploration.turn?_expand rfl (by decide) (by decide), hnext]
    rfl
  obtain ⟨hisTree, hwalks, hqueued⟩ := htree _ (.turns (.goesOn .begins hturn))
  exact ⟨hknown, hrounds, hisTree, hwalks, hqueued hknown, hfinds⟩

end Linkage
