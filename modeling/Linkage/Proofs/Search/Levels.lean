import Linkage.Proofs.Search.Trails

/-!
The levels of a search.

* `advance_eq`: a level holds, of the ways on from the level before, the first to each new place.
* `level_unique`: no place is reached twice.
* `level_closed`: every open step leads to a place that is reached by the next level.
* `path?_eq_some`: a search finds the trail of some level, within its bound, that is done.
-/

namespace Linkage

theorem concat_lt_concat {as bs : List Int64} (hlen : as.length = bs.length) (h : as < bs)
    (a b : Int64) : as ++ [a] < bs ++ [b] := by
  induction as generalizing bs with
  | nil =>
    obtain rfl := List.length_eq_zero_iff.mp hlen.symm
    exact absurd h (List.lt_irrefl _)
  | cons x xs ih =>
    cases bs with
    | nil => simp at hlen
    | cons y ys =>
      simp only [List.cons_append, List.cons_lt_cons_iff] at h ⊢
      exact h.imp_right fun ⟨he, hlt⟩ => ⟨he, ih (by simpa using hlen) hlt⟩

theorem concat_le_concat {as : List Int64} {a b : Int64} (h : a ≤ b) :
    as ++ [a] ≤ as ++ [b] := by
  rcases Int64.lt_or_eq_of_le h with hlt | rfl
  · exact List.le_of_lt (List.append_left_lt (by simpa [List.cons_lt_cons_iff] using hlt))
  · exact List.le_refl _

namespace Trail

/-- The first trail to each place, with the places that are reached then. -/
def firsts (reached : List Place) : List Trail → List Place × List Trail
  | [] => (reached, [])
  | t :: rest =>
    if reached.contains t.here then firsts reached rest
    else
      let (reached, more) := firsts (t.here :: reached) rest
      (reached, t :: more)

theorem firsts_append (reached : List Place) (ts us : List Trail) :
    firsts reached (ts ++ us) =
      ((firsts (firsts reached ts).1 us).1,
        (firsts reached ts).2 ++ (firsts (firsts reached ts).1 us).2) := by
  induction ts generalizing reached with
  | nil => rfl
  | cons t rest ih =>
    simp only [List.cons_append, firsts]
    split
    · exact ih reached
    · simp only [ih, List.cons_append]

theorem mem_firsts_places {reached : List Place} {ts : List Trail} {p : Place} :
    p ∈ (firsts reached ts).1 ↔ p ∈ reached ∨ ∃ t ∈ (firsts reached ts).2, t.here = p := by
  induction ts generalizing reached with
  | nil => simp [firsts]
  | cons t rest ih =>
    simp only [firsts]
    split
    · exact ih
    · simp only [ih, List.mem_cons, exists_eq_or_imp]
      grind

theorem firsts_sublist (reached : List Place) (ts : List Trail) :
    (firsts reached ts).2.Sublist ts := by
  induction ts generalizing reached with
  | nil => exact .slnil
  | cons t rest ih =>
    simp only [firsts]
    split
    · exact (ih reached).cons t
    · exact (ih _).cons_cons t

theorem firsts_fresh {reached : List Place} {ts : List Trail} {t : Trail}
    (ht : t ∈ (firsts reached ts).2) : t.here ∉ reached := by
  induction ts generalizing reached with
  | nil => cases ht
  | cons u rest ih =>
    simp only [firsts] at ht
    split at ht
    · exact ih ht
    · rename_i hu
      rcases List.mem_cons.mp ht with rfl | ht
      · simpa using hu
      · exact fun hr => ih ht (List.mem_cons_of_mem _ hr)

theorem firsts_nodup (reached : List Place) (ts : List Trail) :
    ((firsts reached ts).2.map Trail.here).Nodup := by
  induction ts generalizing reached with
  | nil => exact .nil
  | cons t rest ih =>
    simp only [firsts]
    split
    · exact ih reached
    · refine List.nodup_cons.mpr ⟨fun hm => ?_, ih _⟩
      obtain ⟨u, hu, he⟩ := List.mem_map.mp hm
      exact firsts_fresh hu (he ▸ List.mem_cons_self)

theorem firsts_covers {reached : List Place} {ts : List Trail} {t : Trail} (ht : t ∈ ts) :
    t.here ∈ (firsts reached ts).1 := by
  induction ts generalizing reached with
  | nil => cases ht
  | cons u rest ih =>
    simp only [firsts]
    rcases List.mem_cons.mp ht with rfl | ht
    · split
      · rename_i hr
        exact mem_firsts_places.mpr (.inl (by simpa using hr))
      · exact mem_firsts_places.mpr (.inl List.mem_cons_self)
    · split <;> exact ih ht

/-- In an ordered list no trail comes before the first to its place. -/
theorem firsts_least {reached : List Place} {ts : List Trail} {R : Trail → Trail → Prop}
    (hR : ∀ t, R t t) (hs : ts.Pairwise R) {t u : Trail} (ht : t ∈ (firsts reached ts).2)
    (hu : u ∈ ts) (he : u.here = t.here) : R t u := by
  induction ts generalizing reached with
  | nil => cases hu
  | cons v rest ih =>
    obtain ⟨hv, hrest⟩ := List.pairwise_cons.mp hs
    simp only [firsts] at ht
    split at ht
    · rename_i hin
      rcases List.mem_cons.mp hu with rfl | hu
      · exact absurd (by simpa [he] using hin) (firsts_fresh ht)
      · exact ih hrest ht hu
    · rcases List.mem_cons.mp ht with rfl | ht
      · rcases List.mem_cons.mp hu with rfl | hu
        · exact hR u
        · exact hv u hu
      · rcases List.mem_cons.mp hu with rfl | hu
        · exact absurd (he ▸ List.mem_cons_self) (firsts_fresh ht)
        · exact ih hrest ht hu

end Trail

namespace Quest

variable (q : Quest)

/-- Whether a trail may go on to a neighbour of its last entity. -/
def admits (t : Trail) (id : Int64) : Bool :=
  (id == q.goal || !q.avoided.contains id) && !t.visits id

/-- The trails that are one open step longer than those of a level. -/
def ways (level : List Trail) : List Trail :=
  level.flatMap fun t => ((q.next t.here.1).filter (q.admits t)).map (q.onward t)

theorem isOpen_iff {t : Trail} {id : Int64} :
    q.IsOpen t id ↔ id ∈ q.next t.here.1 ∧ q.admits t id = true := by
  have hv : (!t.visits id) = true ↔ id ∉ t.entities := by
    rw [← t.visits_iff, Bool.not_eq_true', Bool.not_eq_true]
  simp [IsOpen, Passable, admits, hv]

theorem mem_ways {level : List Trail} {t : Trail} :
    t ∈ q.ways level ↔ ∃ u ∈ level, ∃ id, q.IsOpen u id ∧ q.onward u id = t := by
  simp only [ways, List.mem_flatMap, List.mem_map, List.mem_filter, isOpen_iff]

theorem isClosed_eq (t : Trail) (reached : List Place) (id : Int64) : q.isClosed reached t id =
    (!q.admits t id || reached.contains (q.onward t id).here) := by
  simp only [isClosed, admits, here_onward, Bool.not_and, Bool.not_or, Bool.not_not]
  rfl

theorem extend_eq (t : Trail) (reached : List Place) (ids : List Int64) :
    q.extend t reached ids =
      Trail.firsts reached ((ids.filter (q.admits t)).map (q.onward t)) := by
  induction ids generalizing reached with
  | nil => rfl
  | cons id rest ih =>
    by_cases ha : q.admits t id = true
    · simp only [extend, isClosed_eq, ha, List.filter_cons_of_pos, List.map_cons, Trail.firsts,
        Bool.not_true, Bool.false_or, ih]
      rfl
    · rw [List.filter_cons_of_neg ha, ← ih]
      simp only [extend, isClosed_eq, ha, Bool.not_false, Bool.true_or, ↓reduceIte]

/-- A level holds the first trail to each new place among all the ways on. -/
theorem advance_eq (reached : List Place) (level : List Trail) :
    q.advance reached level = Trail.firsts reached (q.ways level) := by
  induction level generalizing reached with
  | nil => rfl
  | cons t rest ih =>
    have hw : q.ways (t :: rest) =
        ((q.next t.here.1).filter (q.admits t)).map (q.onward t) ++ q.ways rest := rfl
    rw [hw, Trail.firsts_append, ← extend_eq, ← ih]
    rfl

/-! ## The levels from a start -/

/-- What is reached at some depth, and the trails of that level. -/
def levels (q : Quest) (start : Int64) : Nat → List Place × List Trail
  | 0 => ([q.start start], [q.origin start])
  | n + 1 => q.advance (q.levels start n).1 (q.levels start n).2

/-- The trails of a level. -/
def level (start : Int64) (n : Nat) : List Trail := (q.levels start n).2

variable {q} {start : Int64} {n m : Nat} {t u : Trail}

theorem level_succ : q.level start (n + 1) =
    (Trail.firsts (q.levels start n).1 (q.ways (q.level start n))).2 := by
  rw [level, levels, advance_eq, level]

theorem level_ways (ht : t ∈ q.level start (n + 1)) :
    ∃ u ∈ q.level start n, ∃ id, q.IsOpen u id ∧ q.onward u id = t := by
  rw [level_succ] at ht
  exact q.mem_ways.mp ((Trail.firsts_sublist _ _).subset ht)

theorem level_route (ht : t ∈ q.level start n) : q.Route start t := by
  induction n generalizing t with
  | zero =>
    obtain rfl := List.mem_singleton.mp ht
    exact .origin
  | succ n ih =>
    obtain ⟨u, hu, id, ho, rfl⟩ := level_ways ht
    exact .onward (ih hu) ho

theorem level_length (ht : t ∈ q.level start n) : t.before.length = n := by
  induction n generalizing t with
  | zero =>
    obtain rfl := List.mem_singleton.mp ht
    rfl
  | succ n ih =>
    obtain ⟨u, hu, id, _, rfl⟩ := level_ways ht
    simp [ih hu]

/-- A place counts as reached when a trail of the levels so far is there. -/
theorem mem_reached {p : Place} :
    p ∈ (q.levels start n).1 ↔ ∃ m ≤ n, ∃ t ∈ q.level start m, t.here = p := by
  induction n with
  | zero => simp [levels, level, eq_comm]
  | succ n ih =>
    have hs : p ∈ (q.levels start (n + 1)).1 ↔
        p ∈ (q.levels start n).1 ∨ ∃ t ∈ q.level start (n + 1), t.here = p := by
      rw [level_succ, levels, advance_eq]
      exact Trail.mem_firsts_places
    rw [hs, ih]
    constructor
    · rintro (⟨m, hm, h⟩ | h)
      · exact ⟨m, by omega, h⟩
      · exact ⟨n + 1, Nat.le_refl _, h⟩
    · rintro ⟨m, hm, h⟩
      rcases Nat.lt_or_eq_of_le hm with hlt | rfl
      · exact .inl ⟨m, by omega, h⟩
      · exact .inr h

theorem level_fresh (ht : t ∈ q.level start (n + 1)) : t.here ∉ (q.levels start n).1 := by
  rw [level_succ] at ht
  exact Trail.firsts_fresh ht

theorem level_nodup (n : Nat) : ((q.level start n).map Trail.here).Nodup := by
  cases n with
  | zero => exact List.nodup_singleton _
  | succ n =>
    rw [level_succ]
    exact Trail.firsts_nodup _ _

/-- No place is reached twice, in one level or in two. -/
theorem level_unique (ht : t ∈ q.level start m) (hu : u ∈ q.level start n)
    (he : t.here = u.here) : t = u := by
  have later {m n : Nat} {t u : Trail} (hlt : m < n) (ht : t ∈ q.level start m)
      (hu : u ∈ q.level start n) (he : t.here = u.here) : False := by
    obtain ⟨k, rfl⟩ := Nat.exists_eq_succ_of_ne_zero (by omega : n ≠ 0)
    exact level_fresh hu (he ▸ mem_reached.mpr ⟨m, by omega, t, ht, rfl⟩)
  rcases Nat.lt_trichotomy m n with hlt | rfl | hgt
  · exact (later hlt ht hu he).elim
  · exact List.inj_on_of_nodup_map (level_nodup m) ht hu he
  · exact (later hgt hu ht he.symm).elim

/-- An open step leads to a place that is reached by the next level. -/
theorem level_closed {id : Int64} (ht : t ∈ q.level start n) (ho : q.IsOpen t id) :
    ∃ m ≤ n + 1, ∃ u ∈ q.level start m, u.here = q.step t.here id := by
  apply mem_reached.mp
  rw [levels, advance_eq]
  exact Trail.firsts_covers (t := q.onward t id) (q.mem_ways.mpr ⟨t, ht, id, ho, rfl⟩)

/-- What a trail passed on its way was reached by its beginnings. -/
theorem level_beginning {ids : List Int64} (ht : t ∈ q.level start n) (hne : ids ≠ [])
    (hp : ids <+: t.entities) : ∃ m ≤ n, ∃ u ∈ q.level start m, u.entities = ids := by
  induction n generalizing t with
  | zero =>
    obtain rfl := List.mem_singleton.mp ht
    rw [entities_origin, ← List.nil_append [start], List.prefix_concat_iff] at hp
    rcases hp with rfl | hp
    · exact ⟨0, Nat.le_refl _, _, ht, rfl⟩
    · exact absurd (List.prefix_nil.mp hp) hne
  | succ n ih =>
    obtain ⟨u, hu, id, _, rfl⟩ := level_ways ht
    rw [entities_onward, List.prefix_concat_iff] at hp
    rcases hp with rfl | hp
    · exact ⟨n + 1, Nat.le_refl _, _, ht, q.entities_onward u id⟩
    · obtain ⟨m, hm, h⟩ := ih hu hp
      exact ⟨m, by omega, h⟩

theorem level_nil (hn : q.level start n = []) (h : n ≤ m) : q.level start m = [] := by
  induction h with
  | refl => exact hn
  | step _ ih => rw [level_succ, ih]; rfl

/-! ## What a search finds -/

theorem isDone_iff : q.isDone t = true ↔ t.here = (q.goal, true) := by
  simp [isDone]

theorem find?_level : (q.level start n).find? q.isDone = some t ↔
    t ∈ q.level start n ∧ t.here = (q.goal, true) := by
  constructor
  · intro h
    exact ⟨List.mem_of_find?_eq_some h, isDone_iff.mp (List.find?_some h)⟩
  · rintro ⟨ht, hd⟩
    have hs : ((q.level start n).find? q.isDone).isSome :=
      List.find?_isSome.mpr ⟨t, ht, isDone_iff.mpr hd⟩
    obtain ⟨u, hu⟩ := Option.isSome_iff_exists.mp hs
    have hud := isDone_iff.mp (List.find?_some hu)
    rw [hu, level_unique ht (List.mem_of_find?_eq_some hu) (hd.trans hud.symm)]

/-- A trail of one of some levels has reached the goal with its requirement met. -/
def DoneWithin (q : Quest) (start : Int64) (first last : Nat) (t : Trail) : Prop :=
  ∃ m, first ≤ m ∧ m ≤ last ∧ t ∈ q.level start m ∧ t.here = (q.goal, true)

variable {last : Nat}

theorem doneWithin_self : q.DoneWithin start n n t ↔ (q.level start n).find? q.isDone = some t := by
  rw [find?_level]
  constructor
  · rintro ⟨m, hlo, hhi, h⟩
    obtain rfl : m = n := by omega
    exact h
  · exact fun h => ⟨n, Nat.le_refl n, Nat.le_refl n, h⟩

theorem doneWithin_found (hu : (q.level start n).find? q.isDone = some u) (hle : n ≤ last) :
    q.DoneWithin start n last t ↔ u = t := by
  obtain ⟨hmem, hdone⟩ := find?_level.mp hu
  constructor
  · rintro ⟨m, _, _, ht, hd⟩
    exact level_unique hmem ht (hdone.trans hd.symm)
  · rintro rfl
    exact ⟨n, Nat.le_refl n, hle, hmem, hdone⟩

theorem doneWithin_later (hnone : (q.level start n).find? q.isDone = none) :
    q.DoneWithin start n last t ↔ q.DoneWithin start (n + 1) last t := by
  constructor
  · rintro ⟨m, hlo, hhi, h⟩
    have hne : m ≠ n := by
      rintro rfl
      cases (find?_level.mpr h).symm.trans hnone
    exact ⟨m, by omega, hhi, h⟩
  · rintro ⟨m, hlo, hhi, h⟩
    exact ⟨m, by omega, hhi, h⟩

theorem not_doneWithin_nil (hn : q.level start n = []) : ¬ q.DoneWithin start n last t := by
  rintro ⟨m, hlo, _, ht, _⟩
  rw [level_nil hn hlo] at ht
  cases ht

/-- A search goes on from any level as it does from the start. -/
theorem search_levels (bound n : Nat) :
    q.search bound (q.levels start n).1 (q.levels start n).2 = some t ↔
      q.DoneWithin start n (n + bound) t := by
  induction bound generalizing n with
  | zero => exact doneWithin_self.symm
  | succ bound ih =>
    rw [search]
    cases hf : (q.levels start n).2.find? q.isDone with
    | some u =>
      rw [doneWithin_found hf (by omega)]
      exact Option.some_inj
    | none =>
      rw [doneWithin_later hf, show n + (bound + 1) = n + 1 + bound by omega]
      change (if (q.level start (n + 1)).isEmpty then none
        else q.search bound (q.levels start (n + 1)).1 (q.levels start (n + 1)).2) = some t ↔ _
      split
      · rename_i hempty
        exact ⟨nofun, fun h => absurd h (not_doneWithin_nil (List.isEmpty_iff.mp hempty))⟩
      · exact ih (n + 1)

/-- A search finds the one trail, if any, that is done in a level within its bound. -/
theorem path?_eq_some {bound : Nat} {ids : List Int64} :
    q.path? start bound = some ids ↔
      ∃ n ≤ bound, ∃ t ∈ q.level start n, t.here = (q.goal, true) ∧ t.entities = ids := by
  have hs (t : Trail) : q.search bound [q.start start] [⟨q.start start, []⟩] = some t ↔
      q.DoneWithin start 0 (0 + bound) t := search_levels bound 0
  simp only [path?, Option.map_eq_some_iff]
  constructor
  · rintro ⟨t, ht, rfl⟩
    obtain ⟨n, _, hn, hmem, hd⟩ := (hs t).mp ht
    exact ⟨n, by omega, t, hmem, hd, rfl⟩
  · rintro ⟨n, hn, t, hmem, hd, rfl⟩
    exact ⟨t, (hs t).mpr ⟨n, by omega, by omega, hmem, hd⟩, rfl⟩

/-! ## Order -/

/-- Neighbours are listed by number. -/
def Ordered (q : Quest) : Prop := ∀ id, (q.next id).Pairwise (· ≤ ·)

theorem ways_sorted (ho : q.Ordered) {level : List Trail}
    (hlen : ∀ t ∈ level, t.before.length = n)
    (hs : level.Pairwise fun t u => t.entities < u.entities) :
    (q.ways level).Pairwise fun t u => t.entities ≤ u.entities := by
  refine List.pairwise_flatMap.mpr ⟨fun t _ => ?_, ?_⟩
  · refine List.pairwise_map.mpr (((ho _).filter _).imp fun h => ?_)
    simpa only [entities_onward] using concat_le_concat h
  · refine hs.imp_of_mem fun {t u} ht hu hlt => ?_
    intro x hx y hy
    obtain ⟨a, _, rfl⟩ := List.mem_map.mp hx
    obtain ⟨b, _, rfl⟩ := List.mem_map.mp hy
    simp only [entities_onward]
    exact List.le_of_lt (concat_lt_concat (by simp [hlen t ht, hlen u hu]) hlt a b)

theorem level_ways_sorted (ho : q.Ordered) (start : Int64) (n : Nat)
    (hs : (q.level start n).Pairwise fun t u => t.entities < u.entities) :
    (q.ways (q.level start n)).Pairwise fun t u => t.entities ≤ u.entities :=
  ways_sorted ho (fun _ => level_length) hs

/-- The trails of a level come in the order of their entities' numbers. -/
theorem level_sorted (ho : q.Ordered) (start : Int64) (n : Nat) :
    (q.level start n).Pairwise fun t u => t.entities < u.entities := by
  induction n with
  | zero => exact List.pairwise_singleton _ _
  | succ n ih =>
    have hle : (q.level start (n + 1)).Pairwise fun t u => t.entities ≤ u.entities := by
      rw [level_succ]
      exact (level_ways_sorted ho start n ih).sublist (Trail.firsts_sublist _ _)
    have hne : (q.level start (n + 1)).Pairwise fun t u => t.here ≠ u.here :=
      List.pairwise_map.mp (level_nodup (n + 1))
    refine (hle.and hne).imp_of_mem fun {t u} ht hu h => ?_
    -- Equal entities would make the trails one, and so their places.
    have hdiff : t.entities ≠ u.entities := fun he =>
      h.2 (congrArg Trail.here ((level_route ht).eq_of_entities (level_route hu) he))
    exact List.not_le.mp fun hge => hdiff (List.le_antisymm h.1 hge)

/-- The trail that is kept for a new place comes first among all the ways to it. -/
theorem level_least (ho : q.Ordered) (ht : t ∈ q.level start (n + 1))
    (hu : u ∈ q.ways (q.level start n)) (he : u.here = t.here) : t.entities ≤ u.entities := by
  rw [level_succ] at ht
  exact Trail.firsts_least (fun _ => List.le_refl _)
    (level_ways_sorted ho start n (level_sorted ho start n)) ht hu he

end Quest

end Linkage
