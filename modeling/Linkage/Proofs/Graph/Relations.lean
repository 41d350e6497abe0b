import Linkage.Graph

namespace Linkage

theorem Relationship.opposite_of_touches {r : Relationship} {a b : Int64}
    (ht : r.touches a = true) :
    r.opposite a = b ↔ (r.left = a ∧ r.right = b) ∨ (r.right = a ∧ r.left = b ∧ r.left ≠ a) := by
  simp only [touches, Bool.or_eq_true, beq_iff_eq] at ht
  unfold opposite
  split
  · rename_i hl
    simp [hl]
  · rename_i hl
    have hr : r.right = a := ht.resolve_left hl
    simp [hl, hr]

/-- The two entities are the ends, in either order. -/
def Relationship.joins (r : Relationship) (a b : Int64) : Bool :=
  (r.left == a && r.right == b) || (r.left == b && r.right == a)

theorem Relationship.joins_iff {r : Relationship} {a b : Int64} :
    r.joins a b = true ↔ (r.left = a ∧ r.right = b) ∨ (r.left = b ∧ r.right = a) := by
  simp [joins]

/-! Relationships of an entity are ordered by their other ends. -/

theorem Relationship.opposite_trans (id : Int64) (a b c : Relationship)
    (hab : decide (a.opposite id ≤ b.opposite id) = true)
    (hbc : decide (b.opposite id ≤ c.opposite id) = true) :
    decide (a.opposite id ≤ c.opposite id) = true :=
  decide_eq_true (Int64.le_trans (of_decide_eq_true hab) (of_decide_eq_true hbc))

theorem Relationship.opposite_total (id : Int64) (a b : Relationship) :
    (decide (a.opposite id ≤ b.opposite id) || decide (b.opposite id ≤ a.opposite id)) = true := by
  simpa using Int64.le_total (a.opposite id) (b.opposite id)

namespace Fixture

theorem checkRelationship_eq_ok {ids : List Int64} {r : Relationship} :
    checkRelationship ids r = .ok () ↔ r.left ∈ ids ∧ r.right ∈ ids ∧ r.left ≠ r.right := by
  unfold checkRelationship
  by_cases hl : r.left ∈ ids <;> by_cases hr : r.right ∈ ids <;> by_cases he : r.left = r.right <;>
    simp_all

theorem checkRelationships_eq_ok {ids : List Int64} {rs : List Relationship} :
    checkRelationships ids rs = .ok () ↔
      ∀ r ∈ rs, r.left ∈ ids ∧ r.right ∈ ids ∧ r.left ≠ r.right := by
  induction rs with
  | nil => simp [checkRelationships]
  | cons r rest ih =>
    simp only [checkRelationships, List.forall_mem_cons, ← checkRelationship_eq_ok (r := r)]
    split
    · rename_i fault hf
      simp [hf]
    · rename_i ho
      simp [ho, ih]

end Fixture

namespace Graph

variable (g : Graph)

/-- Two entities are the ends of a relationship. -/
def Joined (a b : Int64) : Prop :=
  ∃ r ∈ g.fixture.relationships, (r.left = a ∧ r.right = b) ∨ (r.left = b ∧ r.right = a)

instance (a b : Int64) : Decidable (g.Joined a b) :=
  inferInstanceAs (Decidable (∃ r ∈ g.fixture.relationships, _))

/-- A relationship of an accepted fixture has two known ends, and they differ. -/
theorem ends_known {r : Relationship} (hr : r ∈ g.fixture.relationships) :
    r.left ∈ g.fixture.ids ∧ r.right ∈ g.fixture.ids ∧ r.left ≠ r.right := by
  have ha := g.accepted
  unfold Fixture.check at ha
  split at ha
  · cases ha
  · exact Fixture.checkRelationships_eq_ok.mp ha r hr

theorem entity?_isSome {id : Int64} : (g.entity? id).isSome ↔ id ∈ g.fixture.ids := by
  simp [entity?, Fixture.ids, List.find?_isSome]

variable {g}

theorem Joined.symm {a b : Int64} (h : g.Joined a b) : g.Joined b a := by
  obtain ⟨r, hr, he⟩ := h
  exact ⟨r, hr, he.symm⟩

theorem Joined.known {a b : Int64} (h : g.Joined a b) : b ∈ g.fixture.ids := by
  obtain ⟨r, hr, ⟨_, rfl⟩ | ⟨rfl, _⟩⟩ := h
  · exact (g.ends_known hr).2.1
  · exact (g.ends_known hr).1

theorem mem_relations {r : Relationship} {id : Int64} :
    r ∈ g.relations id ↔ r ∈ g.fixture.relationships ∧ r.touches id = true := by
  simp [relations]

/-- As the two ends differ, a relationship joins an entity to its other end only. -/
theorem opposite_iff_joins {r : Relationship} {a b : Int64} (hr : r ∈ g.fixture.relationships) :
    r.touches a = true ∧ r.opposite a = b ↔ r.joins a b = true := by
  rw [Relationship.joins_iff]
  constructor
  · rintro ⟨ht, ho⟩
    rcases (Relationship.opposite_of_touches ht).mp ho with he | ⟨hb, ha, _⟩
    · exact .inl he
    · exact .inr ⟨ha, hb⟩
  · intro he
    have ht : r.touches a = true := by
      rcases he with ⟨ha, _⟩ | ⟨_, ha⟩ <;> simp [Relationship.touches, ha]
    refine ⟨ht, (Relationship.opposite_of_touches ht).mpr (he.imp_right fun ⟨hb, ha⟩ => ?_)⟩
    exact ⟨ha, hb, fun hl => (g.ends_known hr).2.2 (hl.trans ha.symm)⟩

/-- Being a neighbour has no direction, whichever end a relationship names first. -/
theorem mem_neighbours {a b : Int64} : b ∈ g.neighbours a ↔ g.Joined a b := by
  simp only [neighbours, List.mem_map, mem_relations]
  constructor
  · rintro ⟨r, ⟨hr, ht⟩, ho⟩
    exact ⟨r, hr, Relationship.joins_iff.mp ((opposite_iff_joins hr).mp ⟨ht, ho⟩)⟩
  · rintro ⟨r, hr, he⟩
    obtain ⟨ht, ho⟩ := (opposite_iff_joins hr).mpr (Relationship.joins_iff.mpr he)
    exact ⟨r, ⟨hr, ht⟩, ho⟩

/-- They are listed by number. -/
theorem neighbours_sorted (id : Int64) : (g.neighbours id).Pairwise (· ≤ ·) := by
  rw [neighbours, List.pairwise_map]
  exact (List.pairwise_mergeSort (Relationship.opposite_trans id) (Relationship.opposite_total id)
    _).imp fun h => of_decide_eq_true h

end Graph

end Linkage
