import Mathlib.Data.List.Permutation
import Mathlib.Logic.Relation
import Linkage.Proofs.Graph.Owners

/-!
Fixtures that tell one graph in different ways: entities or relationships in another order, a
relationship the other way round, or one given again.
-/

namespace Linkage

/-- The relationship with its ends exchanged. -/
def Relationship.turned (r : Relationship) : Relationship :=
  { r with left := r.right, right := r.left }

/-- One change to a fixture that leaves what it tells. -/
inductive Fixture.Rearranges (f : Fixture) : Fixture → Prop
  | entities {entities : List Entity} :
    f.entities.Perm entities → Rearranges f { f with entities := entities }
  | relationships {relationships : List Relationship} :
    f.relationships.Perm relationships → Rearranges f { f with relationships := relationships }
  | turned {before after : List Relationship} {r : Relationship} :
    f.relationships = before ++ r :: after →
      Rearranges f { f with relationships := before ++ r.turned :: after }
  | repeated {r : Relationship} :
    r ∈ f.relationships → Rearranges f { f with relationships := r :: f.relationships }

/-- Any number of changes, one after another. -/
def Fixture.Rearranged : Fixture → Fixture → Prop := Relation.ReflTransGen Fixture.Rearranges

theorem Relationship.joins_turned (r : Relationship) (a b : Int64) :
    r.turned.joins a b = r.joins a b := by
  rw [Bool.eq_iff_iff, joins_iff, joins_iff]
  constructor
  · exact fun h => h.elim (fun ⟨hr, hl⟩ => .inr ⟨hl, hr⟩) (fun ⟨hr, hl⟩ => .inl ⟨hl, hr⟩)
  · exact fun h => h.elim (fun ⟨hl, hr⟩ => .inr ⟨hr, hl⟩) (fun ⟨hl, hr⟩ => .inl ⟨hr, hl⟩)

namespace Graph

variable {g : Graph}

theorem joined_iff {a b : Int64} :
    g.Joined a b ↔ ∃ r ∈ g.fixture.relationships, r.joins a b = true := by
  simp only [Joined, Relationship.joins_iff]

/-- The fixture is accepted, and joins the same entities. -/
def IsToldBy (g : Graph) (f : Fixture) : Prop :=
  ∃ g' : Graph, g'.fixture = f ∧ ∀ a b, g'.Joined a b ↔ g.Joined a b

/-- Other relationships that join the same entities make a graph as well, because their ends are
known by what was joined before. -/
theorem isToldBy_of_joins {relationships : List Relationship}
    (h : ∀ a b, (∃ r ∈ relationships, r.joins a b = true) ↔ g.Joined a b) :
    g.IsToldBy { g.fixture with relationships := relationships } := by
  obtain ⟨hids, hrecords, -⟩ := Fixture.check_eq_ok.mp g.accepted
  have hends : ∀ r ∈ relationships,
      r.left ∈ g.fixture.ids ∧ r.right ∈ g.fixture.ids ∧ r.left ≠ r.right := by
    intro r hr
    have hself : r.joins r.left r.right = true := Relationship.joins_iff.mpr (.inl ⟨rfl, rfl⟩)
    have hjoined := (h r.left r.right).mp ⟨r, hr, hself⟩
    refine ⟨hjoined.symm.known, hjoined.known, fun hsame => ?_⟩
    obtain ⟨s, hs, ⟨hl, hr⟩ | ⟨hl, hr⟩⟩ := hjoined
    · exact (g.ends_known hs).2.2 (hl.trans (hsame.trans hr.symm))
    · exact (g.ends_known hs).2.2 (hl.trans (hsame.symm.trans hr.symm))
  refine ⟨⟨{ g.fixture with relationships := relationships },
    Fixture.check_eq_ok.mpr ⟨hids, hrecords, hends⟩⟩, rfl, fun a b => ?_⟩
  rw [joined_iff]
  exact h a b

theorem isToldBy_of_perm {entities : List Entity} (h : g.fixture.entities.Perm entities) :
    g.IsToldBy { g.fixture with entities := entities } := by
  obtain ⟨hids, hrecords, hends⟩ := Fixture.check_eq_ok.mp g.accepted
  have hperm : g.fixture.ids.Perm (entities.map Entity.id) := h.map Entity.id
  refine ⟨⟨{ g.fixture with entities := entities }, Fixture.check_eq_ok.mpr ⟨?_, ?_, ?_⟩⟩, rfl,
    fun _ _ => Iff.rfl⟩
  · exact hperm.nodup_iff.mp hids
  · exact (h.flatMap_right Entity.records).nodup_iff.mp hrecords
  · intro r hr
    obtain ⟨hl, hr, hne⟩ := hends r hr
    exact ⟨hperm.mem_iff.mp hl, hperm.mem_iff.mp hr, hne⟩

end Graph

namespace Fixture

variable {g : Graph} {f : Fixture}

/-- After one change the fixture is accepted, and joins the same entities. -/
theorem Rearranges.isToldBy (h : g.fixture.Rearranges f) : g.IsToldBy f := by
  cases h with
  | entities hperm => exact Graph.isToldBy_of_perm hperm
  | relationships hperm =>
    apply Graph.isToldBy_of_joins
    intro a b
    simp only [Graph.joined_iff, hperm.mem_iff]
  | turned hsplit =>
    apply Graph.isToldBy_of_joins
    intro a b
    simp only [Graph.joined_iff, hsplit, List.mem_append, List.mem_cons, or_and_right, exists_or,
      exists_eq_left, Relationship.joins_turned]
  | repeated hmem =>
    apply Graph.isToldBy_of_joins
    intro a b
    rw [Graph.joined_iff]
    simp only [List.mem_cons, or_and_right, exists_or, exists_eq_left]
    exact or_iff_right_of_imp fun hjoins => ⟨_, hmem, hjoins⟩

/-- Rearranged as often as one likes, a fixture is accepted and joins the same entities. -/
theorem Rearranged.isToldBy (h : g.fixture.Rearranged f) : g.IsToldBy f := by
  induction h with
  | refl => exact ⟨g, rfl, fun _ _ => Iff.rfl⟩
  | tail _ hlast ih =>
    obtain ⟨g₁, rfl, hjoined₁⟩ := ih
    obtain ⟨g₂, hf, hjoined₂⟩ := hlast.isToldBy
    exact ⟨g₂, hf, fun a b => (hjoined₂ a b).trans (hjoined₁ a b)⟩

end Fixture

end Linkage
