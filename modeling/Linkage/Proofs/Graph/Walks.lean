import Mathlib.Data.List.Chain
import Linkage.Proofs.Graph.Relations

namespace Linkage

/-- The number of steps of a walk. -/
def edges (ids : List Int64) : Nat := ids.length - 1

/-- The entities of a walk without the two at its ends. -/
def interior (ids : List Int64) : List Int64 := ids.tail.dropLast

@[simp] theorem edges_concat {ids : List Int64} (id : Int64) (h : ids ≠ []) :
    edges (ids ++ [id]) = edges ids + 1 := by
  have := List.length_pos_iff.mpr h
  simp only [edges, List.length_append, List.length_singleton]
  omega

@[simp] theorem edges_reverse (ids : List Int64) : edges ids.reverse = edges ids := by
  rw [edges, edges, List.length_reverse]

@[simp] theorem interior_reverse (ids : List Int64) :
    interior ids.reverse = (interior ids).reverse := by
  rw [interior, interior, List.tail_reverse, List.dropLast_reverse, List.tail_dropLast]

/-- Past the first entity of a walk there are the interior ones and the last. -/
theorem tail_eq_interior_concat {ids : List Int64} {last : Int64}
    (hl : ids.getLast? = some last) (hlong : ids.tail ≠ []) :
    ids.tail = interior ids ++ [last] := by
  obtain ⟨id, rest, rfl⟩ := List.exists_cons_of_ne_nil (l := ids) (by rintro rfl; simp at hlong)
  simp only [List.tail_cons] at hlong
  rw [List.getLast?_cons, List.getLast?_eq_some_getLast hlong] at hl
  simp only [Option.getD_some, Option.some.injEq] at hl
  rw [interior, List.tail_cons, ← hl, List.dropLast_concat_getLast]

theorem mem_tail_of_split {ids as bs : List Int64} {id next : Int64}
    (h : ids = as ++ id :: next :: bs) : next ∈ ids.tail := by
  subst h
  cases as <;> simp

/-- Past its first entity a list that goes on as another one has nothing but what the two have. -/
theorem mem_tail_turn {as bs cs ds : List Int64} {id other : Int64}
    (h : other ∈ (as ++ id :: ds).tail) :
    other ∈ (as ++ id :: bs).tail ∨ other ∈ (cs ++ id :: ds).tail := by
  have hafter (hin : other ∈ ds) : other ∈ (cs ++ id :: ds).tail := by
    cases cs <;> simp [hin]
  cases as with
  | nil => exact .inr (hafter h)
  | cons first rest =>
    rw [List.cons_append, List.tail_cons] at h ⊢
    rcases List.mem_append.mp h with hbefore | hhere
    · exact .inl (List.mem_append_left _ hbefore)
    · rcases List.mem_cons.mp hhere with rfl | hin
      · exact .inl (List.mem_append_right rest List.mem_cons_self)
      · exact .inr (hafter hin)

namespace Graph

/-- Entities from one end to the other, each joined to the one before. -/
structure IsWalk (g : Graph) (origin target : Int64) (ids : List Int64) : Prop where
  first : ids.head? = some origin
  last : ids.getLast? = some target
  joined : ids.IsChain g.Joined

namespace IsWalk

variable {g : Graph} {origin target : Int64} {ids : List Int64}

theorem single (g : Graph) (id : Int64) : g.IsWalk id id [id] :=
  ⟨rfl, rfl, .singleton id⟩

theorem ne_nil (h : g.IsWalk origin target ids) : ids ≠ [] := by
  rintro rfl
  cases h.first

theorem concat {next : Int64} (h : g.IsWalk origin target ids) (hj : g.Joined target next) :
    g.IsWalk origin next (ids ++ [next]) := by
  refine ⟨?_, by simp, ?_⟩
  · rw [List.head?_append_of_ne_nil _ h.ne_nil, h.first]
  · refine List.isChain_append.mpr ⟨h.joined, .singleton next, ?_⟩
    simp [h.last, hj]

/-- Walks grow at their last end: a walk is one entity, or a walk and one step more. -/
@[elab_as_elim]
theorem concat_induction {motive : ∀ target ids, g.IsWalk origin target ids → Prop}
    (single : motive origin [origin] (single g origin))
    (concat : ∀ {ids id next} (hw : g.IsWalk origin id ids) (hj : g.Joined id next),
      motive id ids hw → motive next (ids ++ [next]) (hw.concat hj))
    {target : Int64} {ids : List Int64} (h : g.IsWalk origin target ids) :
    motive target ids h := by
  induction ids using List.reverseRecOn generalizing target with
  | nil => exact absurd rfl h.ne_nil
  | append_singleton ids next ih =>
    obtain rfl : next = target := by simpa using h.last
    by_cases hnil : ids = []
    · subst hnil
      obtain rfl : next = origin := by simpa using h.first
      exact single
    · have hw : g.IsWalk origin (ids.getLast hnil) ids :=
        ⟨by rw [← h.first, List.head?_append_of_ne_nil _ hnil],
          List.getLast?_eq_some_getLast hnil, h.joined.left_of_append⟩
      have hj := (List.isChain_append.mp h.joined).2.2 _ hw.last next rfl
      exact concat hw hj (ih hw)

theorem known (h : g.IsWalk origin target ids) (ho : origin ∈ g.fixture.ids) :
    ∀ id ∈ ids, id ∈ g.fixture.ids := by
  induction h using concat_induction with
  | single => exact List.forall_mem_singleton.mpr ho
  | concat _ hj ih => exact List.forall_mem_append.mpr ⟨ih, List.forall_mem_singleton.mpr hj.known⟩

end IsWalk

theorem IsWalk.reverse {g : Graph} {origin target : Int64} {ids : List Int64}
    (h : g.IsWalk origin target ids) : g.IsWalk target origin ids.reverse := by
  refine ⟨?_, ?_, ?_⟩
  · rw [List.head?_reverse, h.last]
  · rw [List.getLast?_reverse, h.first]
  · exact List.isChain_reverse.mpr (h.joined.imp fun _ _ => Joined.symm)

/-- Where two walks meet, the first may go on as the second does. -/
theorem IsWalk.turn {g : Graph} {origin target origin' target' id : Int64}
    {as bs cs ds : List Int64} (h : g.IsWalk origin target (as ++ id :: bs))
    (h' : g.IsWalk origin' target' (cs ++ id :: ds)) :
    g.IsWalk origin target' (as ++ id :: ds) := by
  refine ⟨?_, ?_, ?_⟩
  · have hfirst := h.first
    cases as <;> exact hfirst
  · have hlast := h'.last
    rwa [List.getLast?_append_cons] at hlast ⊢
  · have hbefore := (List.isChain_split.mp h.joined).1
    have hafter := (List.isChain_split.mp h'.joined).2
    exact List.isChain_split.mpr ⟨hbefore, hafter⟩

/-- A walk that a path call would accept: short enough, and clear of what it avoids except at
its ends. -/
structure Connects (g : Graph) (origin target : Int64) (maxDegrees : Nat) (avoided : List Int64)
    (ids : List Int64) : Prop where
  walk : g.IsWalk origin target ids
  bounded : edges ids ≤ maxDegrees
  clear : ∀ id ∈ interior ids, id ∉ avoided

/-- Nothing after the start is avoided, but for the goal. -/
theorem Connects.passable {g : Graph} {origin target : Int64} {maxDegrees : Nat}
    {avoided ids : List Int64} (h : g.Connects origin target maxDegrees avoided ids) :
    ∀ id ∈ ids.tail, id = target ∨ id ∉ avoided := by
  intro id hid
  rw [tail_eq_interior_concat h.walk.last (List.ne_nil_of_mem hid)] at hid
  rcases List.mem_append.mp hid with hid | hid
  · exact .inr (h.clear id hid)
  · exact .inl (List.mem_singleton.mp hid)

/-- Relationships have no direction, so the same walk leads back. -/
theorem Connects.reverse {g : Graph} {origin target : Int64} {maxDegrees : Nat}
    {avoided ids : List Int64} (h : g.Connects origin target maxDegrees avoided ids) :
    g.Connects target origin maxDegrees avoided ids.reverse := by
  refine ⟨h.walk.reverse, by rw [edges_reverse]; exact h.bounded, fun id hid => h.clear id ?_⟩
  rwa [interior_reverse, List.mem_reverse] at hid

end Graph

end Linkage
