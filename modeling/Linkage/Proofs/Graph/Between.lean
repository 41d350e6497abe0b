import Linkage.Proofs.Graph.Relations

namespace Linkage

section Sorting

variable {α : Type} {le : α → α → Bool} {p : α → Bool} {items : List α}

/-- Sorting leaves equal items in order. -/
theorem filter_mergeSort (htrans : ∀ a b c, le a b → le b c → le a c)
    (htotal : ∀ a b, le a b || le b a) (h : ∀ a ∈ items, ∀ b ∈ items, p a → p b → le a b) :
    (items.mergeSort le).filter p = items.filter p := by
  have hequal : (items.filter p).Pairwise (le · ·) := by
    refine List.pairwise_of_forall_mem_list fun a ha b hb => ?_
    obtain ⟨ha, hpa⟩ := List.mem_filter.mp ha
    obtain ⟨hb, hpb⟩ := List.mem_filter.mp hb
    exact h a ha b hb hpa hpb
  -- Equal items stay in order, and none is lost, so filtering gives the same list on both sides.
  have hsub : (items.filter p).Sublist ((items.mergeSort le).filter p) := by
    have hkept := (List.sublist_mergeSort htrans htotal hequal List.filter_sublist).filter p
    simpa using hkept
  have hlength := ((List.mergeSort_perm items le).filter p).length_eq
  exact (hsub.eq_of_length hlength.symm).symm

end Sorting

namespace Graph

/-- The first relationship given that joins two entities. -/
def between? (g : Graph) (a b : Int64) : Option Relationship :=
  g.fixture.relationships.find? fun r => r.joins a b

variable {g : Graph} {a b : Int64}

theorem Joined.between (h : g.Joined a b) : ∃ r, g.between? a b = some r := by
  obtain ⟨r, hr, he⟩ := h
  refine Option.isSome_iff_exists.mp (List.find?_isSome.mpr ⟨r, hr, ?_⟩)
  exact Relationship.joins_iff.mpr he

/-- An entity keeps its relationships to another one in the order in which they are given. -/
theorem filter_relations (g : Graph) (a b : Int64) :
    (g.relations a).filter (fun r => r.opposite a == b) =
      g.fixture.relationships.filter fun r => r.joins a b := by
  have hequal : ∀ r ∈ g.fixture.relationships.filter (fun r => r.touches a),
      ∀ s ∈ g.fixture.relationships.filter (fun r => r.touches a),
      (r.opposite a == b) = true → (s.opposite a == b) = true →
      decide (r.opposite a ≤ s.opposite a) = true := by
    intro r _ s _ hr hs
    rw [beq_iff_eq.mp hr, beq_iff_eq.mp hs]
    exact decide_eq_true (Int64.le_refl b)
  rw [relations, filter_mergeSort (Relationship.opposite_trans a) (Relationship.opposite_total a)
    hequal, List.filter_filter]
  apply List.filter_congr
  intro r hr
  rw [Bool.eq_iff_iff, Bool.and_eq_true, beq_iff_eq, and_comm]
  exact opposite_iff_joins hr

theorem find?_relations (g : Graph) (a b : Int64) :
    (g.relations a).find? (fun r => r.opposite a == b) = g.between? a b := by
  rw [between?, ← List.head?_filter, ← List.head?_filter, filter_relations]

end Graph

end Linkage
