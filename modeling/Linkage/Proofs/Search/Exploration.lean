import Linkage.Proofs.Search.Levels

/-!
Searches with a queue.

A search has the places it is to go on from in a queue, and for each place the one from which it was
visited. Its loops are given a number of rounds; `none` stands for a loop that has not ended by
then.
-/

namespace Linkage

/-- The state of a search. -/
structure Exploration where
  /-- The places that were taken from the queue, each with its depth. -/
  passed : List (Place × UInt32)
  queue : List (Place × UInt32)
  visited : List Place
  /-- Places with those from which they were visited, latest first. -/
  parents : List (Place × Place)

/-- What comes of a turn of a search. -/
inductive Turn where
  | ended
  | found (path : List Int64)
  | onward (e : Exploration)

namespace Exploration

/-- All places that were ever in the queue. -/
def queued (e : Exploration) : List (Place × UInt32) := e.passed ++ e.queue

/-- A search that has visited its origin. -/
def initial (origin : Place) : Exploration := ⟨[], [(origin, 0)], [origin], []⟩

/-- The place from which a place was visited. A later entry replaces an earlier one. -/
def parent? (e : Exploration) (p : Place) : Option Place :=
  (e.parents.find? fun entry => entry.1 == p).map (·.2)

/-- Goes back from a place to find out whether an entity is on the way to it. -/
def onPath? (e : Exploration) (id : Int64) : Nat → Place → Option Bool
  | 0, _ => none
  | rounds + 1, p =>
    if p.1 = id then some true
    else match e.parent? p with
      | some before => onPath? e id rounds before
      | none => some false

/-- Goes back from a place to the origin, or to a place without an entry. Gives the place at which
that ends, and the entities on the way in front of those listed. -/
def walkBack? (e : Exploration) (origin : Place) : Nat → Place → List Int64 →
    Option (Place × List Int64)
  | 0, _, _ => none
  | rounds + 1, p, path =>
    if p = origin then some (p, path)
    else match e.parent? p with
      | some before => walkBack? e origin rounds before (before.1 :: path)
      | none => some (p, path)

/-- The first place in the queue is taken from it. -/
def pass (e : Exploration) (p : Place) (depth : UInt32) (rest : List (Place × UInt32)) :
    Exploration :=
  { e with passed := e.passed ++ [(p, depth)], queue := rest }

/-- A place is visited from another. -/
def enter (e : Exploration) (p before : Place) (depth : UInt32) : Exploration :=
  { e with
    queue := e.queue ++ [(p, depth)]
    visited := p :: e.visited
    parents := (p, before) :: e.parents }

/-- Visits a neighbour of a place, unless it is avoided, on the way to the place or visited. -/
def visit? (q : Quest) (rounds : Nat) (p : Place) (depth : UInt32) (e : Exploration) (id : Int64) :
    Option Exploration :=
  if id != q.goal && q.avoided.contains id then some e
  else (e.onPath? id rounds p).map fun onPath =>
    if onPath || e.visited.contains (q.step p id) then e else e.enter (q.step p id) p (depth + 1)

/-- Visits the listed neighbours of a place in order. -/
def expand? (q : Quest) (rounds : Nat) (p : Place) (depth : UInt32) (e : Exploration)
    (ids : List Int64) : Option Exploration :=
  ids.foldlM (visit? q rounds p depth) e

/-- Goes on from the first place in the queue. -/
def turn? (q : Quest) (origin : Place) (maxDegrees : UInt32) (rounds : Nat) (e : Exploration) :
    Option Turn :=
  match e.queue with
  | [] => some .ended
  | (p, depth) :: rest =>
    let e := e.pass p depth rest
    if p = (q.goal, true) then (e.walkBack? origin rounds p [p.1]).map fun walk => .found walk.2
    else if maxDegrees ≤ depth then some (.onward e)
    else (expand? q rounds p depth e (q.next p.1)).map .onward

/-- Takes turns until the queue is empty or the goal is found. -/
def run? (q : Quest) (origin : Place) (maxDegrees : UInt32) (rounds : Nat) :
    Nat → Exploration → Option (Option (List Int64))
  | 0, e => if e.queue.isEmpty then some none else none
  | turns + 1, e =>
    match e.turn? q origin maxDegrees rounds with
    | none => none
    | some .ended => some none
    | some (.found path) => some (some path)
    | some (.onward e) => run? q origin maxDegrees rounds turns e

end Exploration

/-- The path that is found from a start, if no loop takes more than so many rounds. -/
def Quest.explore? (q : Quest) (start : Int64) (maxDegrees : UInt32) (rounds : Nat) :
    Option (Option (List Int64)) :=
  (Exploration.initial (q.start start)).run? q (q.start start) maxDegrees rounds rounds

/-- The states in which a search takes its turns. -/
inductive Quest.Explored (q : Quest) (start : Int64) (maxDegrees : UInt32) (rounds : Nat) :
    Exploration → Prop
  | begins : Explored q start maxDegrees rounds (.initial (q.start start))
  | goesOn {e e' : Exploration} : Explored q start maxDegrees rounds e →
      e.turn? q (q.start start) maxDegrees rounds = some (.onward e') →
      Explored q start maxDegrees rounds e'

/-- The states in which a search takes its turns, and those in which it visits neighbours. -/
inductive Quest.Iterated (q : Quest) (start : Int64) (maxDegrees : UInt32) (rounds : Nat) :
    Exploration → Prop
  | turns {e : Exploration} : q.Explored start maxDegrees rounds e →
      Iterated q start maxDegrees rounds e
  | visits {e e' : Exploration} {p : Place} {depth : UInt32} {rest : List (Place × UInt32)}
      {ids : List Int64} : q.Explored start maxDegrees rounds e → e.queue = (p, depth) :: rest →
      p ≠ (q.goal, true) → depth < maxDegrees → ids <+: q.next p.1 →
      Exploration.expand? q rounds p depth (e.pass p depth rest) ids = some e' →
      Iterated q start maxDegrees rounds e'

namespace Exploration

variable {q : Quest} {origin p : Place} {maxDegrees depth : UInt32} {rounds : Nat} {e : Exploration}
  {rest : List (Place × UInt32)}

theorem turn?_ended (h : e.queue = []) : e.turn? q origin maxDegrees rounds = some .ended := by
  rw [turn?, h]

theorem turn?_goal (h : e.queue = (p, depth) :: rest) (hp : p = (q.goal, true)) :
    e.turn? q origin maxDegrees rounds =
      ((e.pass p depth rest).walkBack? origin rounds p [p.1]).map fun walk => .found walk.2 := by
  rw [turn?, h]
  exact if_pos hp

theorem turn?_deep (h : e.queue = (p, depth) :: rest) (hp : p ≠ (q.goal, true))
    (hdepth : maxDegrees ≤ depth) :
    e.turn? q origin maxDegrees rounds = some (.onward (e.pass p depth rest)) := by
  rw [turn?, h]
  exact (if_neg hp).trans (if_pos hdepth)

theorem turn?_expand (h : e.queue = (p, depth) :: rest) (hp : p ≠ (q.goal, true))
    (hdepth : ¬ maxDegrees ≤ depth) : e.turn? q origin maxDegrees rounds =
      (expand? q rounds p depth (e.pass p depth rest) (q.next p.1)).map .onward := by
  rw [turn?, h]
  exact (if_neg hp).trans (if_neg hdepth)

end Exploration

/-! ## Trails of visited places -/

namespace Trail

/-- The place that a trail has reached, with the depth at which it is queued. -/
def mark (t : Trail) : Place × UInt32 := (t.here, UInt32.ofNat t.before.length)

/-- The place that a trail has reached, with the one before it. -/
def link? (t : Trail) : Option (Place × Place) := t.before.head?.map fun p => (t.here, p)

end Trail

namespace Quest

variable {q : Quest} {reached : List Place} {t : Trail} {id : Int64}

theorem open_of_not_closed (hid : id ∈ q.next t.here.1) (h : ¬ q.isClosed reached t id = true) :
    q.IsOpen t id ∧ q.step t.here id ∉ reached := by
  rw [isClosed_eq, Bool.or_eq_true, not_or, Bool.not_eq_true', Bool.not_eq_false] at h
  exact ⟨q.isOpen_iff.mpr ⟨hid, h.1⟩, by simpa using h.2⟩

theorem extend_cons_open (h : ¬ q.isClosed reached t id = true) (rest : List Int64) :
    q.extend t reached (id :: rest) = ((q.extend t (q.step t.here id :: reached) rest).1,
      q.onward t id :: (q.extend t (q.step t.here id :: reached) rest).2) := by
  rw [extend, if_neg h]
  rfl

end Quest

namespace Exploration

/-- The places were visited by trails, one after another. -/
structure Tracks (q : Quest) (start : Int64) (maxDegrees : UInt32) (e : Exploration)
    (trails : List Trail) : Prop where
  queued : e.queued = trails.map Trail.mark
  visited : e.visited = (trails.map Trail.here).reverse
  parents : e.parents = (trails.filterMap Trail.link?).reverse
  origin : q.origin start ∈ trails
  routes : ∀ t ∈ trails, q.Route start t
  once : (trails.map Trail.here).Nodup
  /-- The way to a place was taken before. -/
  lineage : ∀ t ∈ trails, ∀ p before, t.before = p :: before → ⟨p, before⟩ ∈ trails
  shallow : ∀ t ∈ trails, t.before.length ≤ maxDegrees.toNat

variable {q : Quest} {start id : Int64} {maxDegrees : UInt32} {e : Exploration}
  {trails : List Trail} {t u : Trail} {rounds : Nat}

namespace Tracks

theorem initial : Tracks q start maxDegrees (initial (q.start start)) [q.origin start] where
  queued := rfl
  visited := rfl
  parents := rfl
  origin := List.mem_singleton_self _
  routes := List.forall_mem_singleton.mpr .origin
  once := List.nodup_singleton _
  lineage := List.forall_mem_singleton.mpr nofun
  shallow := List.forall_mem_singleton.mpr (Nat.zero_le _)

variable (h : Tracks q start maxDegrees e trails)
include h

theorem eq_of_here (ht : t ∈ trails) (hu : u ∈ trails) (hhere : t.here = u.here) : t = u :=
  List.inj_on_of_nodup_map h.once ht hu hhere

theorem mem_visited {p : Place} : p ∈ e.visited ↔ ∃ t ∈ trails, t.here = p := by
  rw [h.visited, List.mem_reverse, List.mem_map]

theorem mem_parents {p before : Place} : (p, before) ∈ e.parents ↔
    ∃ t ∈ trails, t.here = p ∧ t.before.head? = some before := by
  simp only [h.parents, List.mem_reverse, List.mem_filterMap, Trail.link?, Option.map_eq_some_iff,
    Prod.mk.injEq]
  constructor
  · rintro ⟨t, ht, _, hbefore, rfl, rfl⟩
    exact ⟨t, ht, rfl, hbefore⟩
  · rintro ⟨t, ht, rfl, hbefore⟩
    exact ⟨t, ht, before, hbefore, rfl, rfl⟩

theorem mem_queued {p : Place} {depth : UInt32} : (p, depth) ∈ e.queued ↔
    ∃ t ∈ trails, t.here = p ∧ UInt32.ofNat t.before.length = depth := by
  simp only [h.queued, List.mem_map, Trail.mark, Prod.mk.injEq]

theorem toNat_depth (ht : t ∈ trails) :
    (UInt32.ofNat t.before.length).toNat = t.before.length := by
  have hshallow := h.shallow t ht
  have hlt := maxDegrees.toNat_lt
  rw [UInt32.toNat_ofNat', Nat.mod_eq_of_lt (by omega)]

/-- The parent of a place is the one before it on its trail. -/
theorem parent?_eq (ht : t ∈ trails) : e.parent? t.here = t.before.head? := by
  have hentry {before : Place} (hmem : (t.here, before) ∈ e.parents) :
      t.before.head? = some before := by
    obtain ⟨u, hu, hhere, hbefore⟩ := h.mem_parents.mp hmem
    rwa [← h.eq_of_here hu ht hhere]
  rw [parent?]
  cases hfind : e.parents.find? fun entry => entry.1 == t.here with
  | some entry =>
    obtain ⟨p, before⟩ := entry
    have hkey := List.find?_some hfind
    obtain rfl : p = t.here := beq_iff_eq.mp hkey
    exact (hentry (List.mem_of_find?_eq_some hfind)).symm
  | none =>
    cases hhead : t.before.head? with
    | none => rfl
    | some before =>
      have hmem := h.mem_parents.mpr ⟨t, ht, rfl, hhead⟩
      have hkey := List.find?_eq_none.mp hfind _ hmem
      exact absurd (beq_self_eq_true t.here) hkey

/-- Only the origin has no way to it. -/
theorem here_eq_origin (ht : t ∈ trails) : t.here = q.start start ↔ t.before = [] := by
  constructor
  · intro hhere
    rw [h.eq_of_here ht h.origin hhere]
    rfl
  · intro hbefore
    cases h.routes t ht with
    | origin => rfl
    | onward => cases hbefore

/-- A walk back from a place finds the entities of its trail. -/
theorem onPath?_eq (ht : t ∈ trails) (hrounds : t.before.length < rounds) :
    e.onPath? id rounds t.here = some (t.visits id) := by
  induction rounds generalizing t with
  | zero => cases hrounds
  | succ rounds ih =>
    obtain ⟨here, before⟩ := t
    rw [onPath?, h.parent?_eq ht]
    by_cases hid : here.1 = id
    · simp [Trail.visits, hid]
    · cases before with
      | nil => simp [Trail.visits, hid]
      | cons p before =>
        have hwalk := ih (h.lineage _ ht p before rfl) (Nat.lt_of_succ_lt_succ hrounds)
        rw [if_neg hid]
        exact hwalk.trans (by simp [Trail.visits, hid])

/-- A walk back from a place takes its trail to the origin. -/
theorem walkBack?_eq (ht : t ∈ trails) (hrounds : t.before.length < rounds) (path : List Int64) :
    e.walkBack? (q.start start) rounds t.here path =
      some (q.start start, (t.before.map (·.1)).reverse ++ path) := by
  induction rounds generalizing t path with
  | zero => cases hrounds
  | succ rounds ih =>
    have horigin := h.here_eq_origin ht
    obtain ⟨here, before⟩ := t
    rw [walkBack?, h.parent?_eq ht]
    cases before with
    | nil =>
      have hhere : here = q.start start := horigin.mpr rfl
      rw [if_pos hhere, hhere]
      rfl
    | cons p before =>
      have hhere : ¬ here = q.start start := fun hhere => nomatch horigin.mp hhere
      have hwalk := ih (h.lineage _ ht p before rfl) (Nat.lt_of_succ_lt_succ hrounds) (p.1 :: path)
      rw [if_neg hhere]
      exact hwalk.trans (by simp)

/-! ### Visits -/

/-- What was taken from the queue still counts as queued. -/
theorem pass {p : Place} {depth : UInt32} {rest : List (Place × UInt32)}
    (hqueue : e.queue = (p, depth) :: rest) :
    Tracks q start maxDegrees (e.pass p depth rest) trails := by
  have hqueued : (e.pass p depth rest).queued = e.queued := by
    rw [Exploration.queued, Exploration.queued, hqueue]
    exact List.append_cons e.passed (p, depth) rest |>.symm
  exact { h with queued := hqueued.trans h.queued }

/-- A neighbour is visited by the trail that goes on to it, if its place was not visited. -/
theorem enter (ht : t ∈ trails) (hopen : q.IsOpen t id) (hnew : q.step t.here id ∉ e.visited)
    (hdepth : t.before.length < maxDegrees.toNat) :
    Tracks q start maxDegrees
      (e.enter (q.step t.here id) t.here (UInt32.ofNat (t.before.length + 1)))
      (trails ++ [q.onward t id]) where
  queued := by
    rw [Exploration.queued, Exploration.enter, ← List.append_assoc, List.map_append, ← h.queued]
    rfl
  visited := by
    rw [Exploration.enter, h.visited, List.map_append, List.reverse_append]
    rfl
  parents := by
    rw [Exploration.enter, h.parents, List.filterMap_append, List.reverse_append]
    rfl
  origin := List.mem_append_left _ h.origin
  routes := by
    rw [List.forall_mem_append]
    exact ⟨h.routes, List.forall_mem_singleton.mpr (.onward (h.routes t ht) hopen)⟩
  once := by
    rw [List.map_append, List.map_singleton, ← List.concat_eq_append]
    refine h.once.concat fun hmem => hnew ?_
    rw [h.visited, List.mem_reverse]
    exact hmem
  lineage := by
    rw [List.forall_mem_append]
    refine ⟨fun u hu p before hbefore => ?_, List.forall_mem_singleton.mpr ?_⟩
    · exact List.mem_append_left _ (h.lineage u hu p before hbefore)
    · rintro p before hbefore
      cases hbefore
      exact List.mem_append_left _ ht
  shallow := by
    rw [List.forall_mem_append]
    exact ⟨h.shallow, List.forall_mem_singleton.mpr hdepth⟩

/-- A neighbour is visited when the step to it is not closed. -/
theorem visit?_eq (ht : t ∈ trails) (hrounds : t.before.length < rounds) (depth : UInt32) :
    visit? q rounds t.here depth e id = some (if q.isClosed e.visited t id then e
      else e.enter (q.step t.here id) t.here (depth + 1)) := by
  rw [visit?, h.onPath?_eq ht hrounds, Quest.isClosed, Option.map_some]
  by_cases havoided : (id != q.goal && q.avoided.contains id) = true
  · rw [if_pos havoided, havoided, Bool.true_or, Bool.true_or]
    rfl
  · rw [if_neg havoided, Bool.eq_false_iff.mpr havoided, Bool.false_or]

omit h in
/-- The neighbours of a place are visited as the trail to it is extended. -/
theorem expand?_eq {ids : List Int64} (h : Tracks q start maxDegrees e trails) (ht : t ∈ trails)
    (hids : ∀ id ∈ ids, id ∈ q.next t.here.1) (hrounds : t.before.length < rounds)
    (hdepth : t.before.length < maxDegrees.toNat) :
    ∃ e', expand? q rounds t.here (UInt32.ofNat t.before.length) e ids = some e' ∧
      Tracks q start maxDegrees e' (trails ++ (q.extend t e.visited ids).2) ∧
      e'.visited = (q.extend t e.visited ids).1 ∧ e'.passed = e.passed ∧
      e'.queue = e.queue ++ (q.extend t e.visited ids).2.map Trail.mark := by
  induction ids generalizing e trails with
  | nil => exact ⟨e, rfl, by simpa [Quest.extend] using h, rfl, rfl, by simp [Quest.extend]⟩
  | cons id rest ih =>
    obtain ⟨hid, hrest⟩ := List.forall_mem_cons.mp hids
    rw [expand?, List.foldlM_cons, h.visit?_eq ht hrounds]
    by_cases hclosed : q.isClosed e.visited t id = true
    · rw [if_pos hclosed, Quest.extend, if_pos hclosed]
      exact ih h ht hrest
    · obtain ⟨hopen, hnew⟩ := Quest.open_of_not_closed hid hclosed
      have hdeeper : UInt32.ofNat t.before.length + 1 = UInt32.ofNat (t.before.length + 1) :=
        (UInt32.ofNat_add _ 1).symm
      rw [if_neg hclosed, hdeeper, Quest.extend_cons_open hclosed]
      obtain ⟨e', hexpand, htracks, hvisited, hpassed, hqueue⟩ :=
        ih (h.enter ht hopen hnew hdepth) (List.mem_append_left _ ht) hrest
      refine ⟨e', hexpand, ?_, hvisited, hpassed, ?_⟩
      · rwa [List.append_assoc] at htracks
      · rw [hqueue, Exploration.enter, List.append_assoc]
        rfl

end Tracks

end Exploration

end Linkage
