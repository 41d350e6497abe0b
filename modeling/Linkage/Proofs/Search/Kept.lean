import Linkage.Proofs.Search.Levels

/-! The trails that a search keeps, said without the search. -/

namespace Linkage.Quest

/-- One open step longer than a trail that is kept. -/
def Longer (q : Quest) (kept : Trail → Prop) (t : Trail) : Prop :=
  ∃ u id, kept u ∧ q.IsOpen u id ∧ q.onward u id = t

/-- The trails that are kept within some number of steps, one for each place. Shorter trails come
before longer ones; of equally long trails the one with the smallest entities is kept. -/
def Kept (q : Quest) (start : Int64) : Nat → Trail → Prop
  | 0, t => t = q.origin start
  | n + 1, t => Kept q start n t ∨
      (q.Longer (Kept q start n) t ∧ (∀ u, Kept q start n u → u.here ≠ t.here) ∧
        ∀ u, q.Longer (Kept q start n) u → u.here = t.here → t.entities ≤ u.entities)

variable {q : Quest} {start : Int64} {n : Nat} {t : Trail}

/-- A new place can only be entered from the latest level. -/
theorem ways_of_longer (hl : q.Longer (fun u => ∃ m ≤ n, u ∈ q.level start m) t)
    (hnew : t.here ∉ (q.levels start n).1) : t ∈ q.ways (q.level start n) := by
  obtain ⟨u, id, ⟨m, hm, hu⟩, ho, rfl⟩ := hl
  rcases Nat.lt_or_eq_of_le hm with hlt | rfl
  · obtain ⟨k, hk, h⟩ := level_closed hu ho
    exact absurd (mem_reached.mpr ⟨k, by omega, h⟩) hnew
  · exact q.mem_ways.mpr ⟨u, hu, id, ho, rfl⟩

theorem not_reached_iff {p : Place} : p ∉ (q.levels start n).1 ↔
    ∀ u, (∃ m ≤ n, u ∈ q.level start m) → u.here ≠ p := by
  rw [mem_reached]
  grind

/-- A way on to a new place that no other way on beats is in the next level. -/
theorem level_of_least (ho : q.Ordered)
    (hl : q.Longer (fun u => ∃ m ≤ n, u ∈ q.level start m) t)
    (hnew : t.here ∉ (q.levels start n).1)
    (hleast : ∀ u, q.Longer (fun u => ∃ m ≤ n, u ∈ q.level start m) u → u.here = t.here →
      t.entities ≤ u.entities) : t ∈ q.level start (n + 1) := by
  have hways := ways_of_longer hl hnew
  obtain ⟨u, hu, id, hopen, rfl⟩ := q.mem_ways.mp hways
  obtain ⟨m, hm, v, hv, he⟩ := level_closed hu hopen
  have hdeep : m = n + 1 := by
    have : ¬ m ≤ n := fun hle => hnew (mem_reached.mpr ⟨m, hle, v, hv, he⟩)
    omega
  subst hdeep
  obtain ⟨w, hw, id', hopen', hwv⟩ := level_ways hv
  have hge := hleast v ⟨w, id', ⟨n, Nat.le_refl n, hw⟩, hopen', hwv⟩ he
  have hle := level_least ho hv hways he.symm
  have heq : v = q.onward u id := (level_route hv).eq_of_entities
    (.onward (level_route hu) hopen) (List.le_antisymm hle hge)
  exact heq ▸ hv

theorem level_longer (ht : t ∈ q.level start (n + 1)) :
    q.Longer (fun u => ∃ m ≤ n, u ∈ q.level start m) t := by
  obtain ⟨u, hu, id, hopen, he⟩ := level_ways ht
  exact ⟨u, id, ⟨n, Nat.le_refl n, hu⟩, hopen, he⟩

/-- **Levels hold what is kept.** -/
theorem kept_iff (ho : q.Ordered) : q.Kept start n t ↔ ∃ m ≤ n, t ∈ q.level start m := by
  induction n generalizing t with
  | zero => simp [Kept, level, levels]
  | succ n ih =>
    have hkept : q.Kept start n = fun u => ∃ m ≤ n, u ∈ q.level start m :=
      funext fun u => propext ih
    rw [Kept, hkept]
    constructor
    · rintro (⟨m, hm, ht⟩ | ⟨hl, hnew, hleast⟩)
      · exact ⟨m, by omega, ht⟩
      · exact ⟨n + 1, Nat.le_refl _, level_of_least ho hl (not_reached_iff.mpr hnew) hleast⟩
    · rintro ⟨m, hm, ht⟩
      rcases Nat.lt_or_eq_of_le hm with hlt | rfl
      · exact .inl ⟨m, by omega, ht⟩
      · have hnew := level_fresh ht
        refine .inr ⟨level_longer ht, not_reached_iff.mp hnew, fun v hv hhere => ?_⟩
        exact level_least ho ht (ways_of_longer hv (hhere ▸ hnew)) hhere

/-! ## Obstruction -/

/-- The trail that is kept for a place on the way never passes the entity that comes next. -/
def Unobstructed (q : Quest) (start : Int64) (ids : List Int64) : Prop :=
  ∀ as id next bs, ids = as ++ id :: next :: bs →
    ∀ n t, q.Kept start n t → t.here = (id, (as ++ [id]).any q.meets) → next ∉ t.entities

/-- A kept trail is its own way to each place on it, and never comes back to an entity. -/
theorem level_unobstructed (ho : q.Ordered) (ht : t ∈ q.level start n) :
    q.Unobstructed start t.entities := by
  intro as id next bs hsplit k u hu hhere
  obtain ⟨m, _, hu⟩ := (kept_iff ho).mp hu
  have hbegin : as ++ [id] <+: t.entities := ⟨next :: bs, by simp [hsplit]⟩
  obtain ⟨j, _, v, hv, he⟩ := level_beginning ht (by simp) hbegin
  have hsame : u = v := level_unique hu hv
    (hhere.trans ((level_route hv).here_of_entities he).symm)
  have hnodup := hsplit ▸ (level_route ht).nodup
  rw [hsame, he]
  intro hmem
  have hrepeat : as ++ id :: next :: bs = (as ++ [id]) ++ next :: bs := by simp
  rw [hrepeat] at hnodup
  exact (List.nodup_append.mp hnodup).2.2 next hmem next List.mem_cons_self rfl

end Linkage.Quest
