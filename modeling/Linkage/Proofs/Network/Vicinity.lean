import Mathlib.Data.FinEnum
import Mathlib.Data.Set.Card
import Linkage.Proofs.Graph.Walks

namespace Linkage

theorem ncard_list {ids : List Int64} (h : ids.Nodup) : {id | id ∈ ids}.ncard = ids.length := by
  rw [← List.toFinset_card_of_nodup h, ← Set.ncard_coe_finset, List.coe_toFinset]

namespace Graph

/-- The entities at most `steps` steps away from some entity of a base. -/
def vicinity (g : Graph) (base : Set Int64) (steps : Nat) : Set Int64 :=
  {id | ∃ origin ∈ base, ∃ ids, g.IsWalk origin id ids ∧ edges ids ≤ steps}

variable {g : Graph} {base : Set Int64} {n : Nat} {id : Int64}

theorem base_subset_vicinity (n : Nat) : base ⊆ g.vicinity base n :=
  fun id hid => ⟨id, hid, [id], .single g id, Nat.zero_le n⟩

theorem vicinity_mono {m n : Nat} (h : m ≤ n) : g.vicinity base m ⊆ g.vicinity base n :=
  fun _ ⟨origin, ho, ids, hw, hle⟩ => ⟨origin, ho, ids, hw, Nat.le_trans hle h⟩

theorem mem_vicinity_zero : id ∈ g.vicinity base 0 ↔ id ∈ base := by
  constructor
  · rintro ⟨origin, ho, ids, hw, hle⟩
    induction hw using IsWalk.concat_induction with
    | single => exact ho
    | @concat ids id next hw _ _ =>
      rw [edges_concat next hw.ne_nil] at hle
      omega
  · exact fun hid => base_subset_vicinity 0 hid

/-- One step more adds what is joined to the vicinity. -/
theorem mem_vicinity_succ : id ∈ g.vicinity base (n + 1) ↔
    id ∈ g.vicinity base n ∨ ∃ u ∈ g.vicinity base n, g.Joined u id := by
  constructor
  · rintro ⟨origin, ho, ids, hw, hle⟩
    induction hw using IsWalk.concat_induction with
    | single => exact .inl (base_subset_vicinity n ho)
    | @concat ids id next hw hj _ =>
      rw [edges_concat next hw.ne_nil] at hle
      exact .inr ⟨id, ⟨origin, ho, ids, hw, by omega⟩, hj⟩
  · rintro (h | ⟨u, ⟨origin, ho, ids, hw, hle⟩, hj⟩)
    · exact vicinity_mono (Nat.le_succ n) h
    · refine ⟨origin, ho, ids ++ [id], hw.concat hj, ?_⟩
      rw [edges_concat id hw.ne_nil]
      omega

/-- A set that contains the base and is closed under steps contains the vicinity. -/
theorem vicinity_le_closed {s : Set Int64} (hbase : base ⊆ s)
    (hclosed : ∀ u ∈ s, ∀ v, g.Joined u v → v ∈ s) (n : Nat) : g.vicinity base n ⊆ s := by
  induction n with
  | zero => exact fun id hid => hbase (mem_vicinity_zero.mp hid)
  | succ n ih =>
    intro id hid
    rcases mem_vicinity_succ.mp hid with h | ⟨u, hu, hj⟩
    · exact ih h
    · exact hclosed u (ih hu) id hj

theorem vicinity_known (hbase : ∀ id ∈ base, id ∈ g.fixture.ids) (n : Nat) :
    ∀ id ∈ g.vicinity base n, id ∈ g.fixture.ids :=
  vicinity_le_closed hbase (fun _ _ _ hj => hj.known) n

end Graph

end Linkage
