import Mathlib.Data.List.Flatten
import Linkage.Proofs.Graph.Owners

/-!
Entities taken out of a graph, with the relationships that touch them.

* `Graph.without`: the fixture without them is accepted when the whole fixture is.
* `neighbours_without`: an entity that stays keeps those of its neighbours that stay, in order.
-/

namespace Linkage

/-- The relationship touches one of some entities. -/
def Relationship.touchesAny (r : Relationship) (ids : List Int64) : Bool :=
  ids.contains r.left || ids.contains r.right

/-- The fixture without some entities and without the relationships that touch them. -/
def Fixture.without (f : Fixture) (gone : List Int64) : Fixture :=
  { f with
    entities := f.entities.filter fun e => !gone.contains e.id
    relationships := f.relationships.filter fun r => !r.touchesAny gone }

theorem Relationship.touchesAny_iff {r : Relationship} {gone : List Int64} {id : Int64}
    (ht : r.touches id = true) (hid : id ∉ gone) :
    r.touchesAny gone = gone.contains (r.opposite id) := by
  have hout : gone.contains id = false := by simpa using hid
  unfold opposite touchesAny
  split
  · rename_i hl
    rw [hl, hout, Bool.false_or]
  · rename_i hl
    have hr : r.right = id := by simpa [touches, hl] using ht
    rw [hr, hout, Bool.or_false]

namespace Fixture

variable {f : Fixture} {gone : List Int64} {id : Int64}

theorem mem_ids_without : id ∈ (f.without gone).ids ↔ id ∈ f.ids ∧ id ∉ gone := by
  simp only [ids, without, List.mem_map, List.mem_filter, Bool.not_eq_true',
    List.contains_eq_mem, decide_eq_false_iff_not]
  constructor
  · rintro ⟨e, ⟨he, hout⟩, rfl⟩
    exact ⟨⟨e, he, rfl⟩, hout⟩
  · rintro ⟨⟨e, he, rfl⟩, hout⟩
    exact ⟨e, ⟨he, hout⟩, rfl⟩

/-- What is left of an accepted fixture is accepted. -/
theorem check_without (h : f.check = .ok ()) (gone : List Int64) :
    (f.without gone).check = .ok () := by
  obtain ⟨hids, hrecords, hends⟩ := check_eq_ok.mp h
  have hkept : (f.without gone).entities.Sublist f.entities := List.filter_sublist
  refine check_eq_ok.mpr ⟨hids.sublist (hkept.map Entity.id),
    hrecords.sublist (hkept.flatMap Entity.records), fun r hr => ?_⟩
  obtain ⟨hmem, hclear⟩ := List.mem_filter.mp hr
  obtain ⟨hleft, hright, hne⟩ := hends r hmem
  have hout : r.left ∉ gone ∧ r.right ∉ gone := by
    simpa [Relationship.touchesAny] using hclear
  exact ⟨mem_ids_without.mpr ⟨hleft, hout.1⟩, mem_ids_without.mpr ⟨hright, hout.2⟩, hne⟩

end Fixture

namespace Graph

/-- The graph without some entities and without the relationships that touch them. -/
def without (g : Graph) (gone : List Int64) : Graph :=
  ⟨g.fixture.without gone, Fixture.check_without g.accepted gone⟩

variable {g : Graph} {gone : List Int64} {id : Int64}

/-- Both lists are sorted by number and hold the same entities as often, so they are the same. -/
theorem neighbours_without (hid : id ∉ gone) :
    (g.without gone).neighbours id =
      (g.neighbours id).filter fun other => !gone.contains other := by
  have hperm (g : Graph) : (g.neighbours id).Perm
      ((g.fixture.relationships.filter fun r => r.touches id).map fun r => r.opposite id) :=
    (List.mergeSort_perm _ _).map _
  have hleft : ((g.without gone).fixture.relationships.filter fun r => r.touches id) =
      (g.fixture.relationships.filter fun r => r.touches id).filter fun r =>
        !gone.contains (r.opposite id) := by
    change List.filter _ (List.filter _ _) = _
    rw [List.filter_filter, List.filter_filter]
    refine List.filter_congr fun r _ => ?_
    by_cases ht : r.touches id = true
    · rw [ht, Relationship.touchesAny_iff ht hid, Bool.true_and, Bool.and_true]
    · simp [ht]
  have hsame : ((g.without gone).neighbours id).Perm
      ((g.neighbours id).filter fun other => !gone.contains other) := by
    refine (hperm (g.without gone)).trans (.trans ?_ ((hperm g).filter _).symm)
    rw [hleft, List.filter_map]
    exact List.Perm.refl _
  exact hsame.eq_of_pairwise (fun _ _ _ _ => Int64.le_antisymm) (neighbours_sorted id)
    ((neighbours_sorted id).filter _)

/-- An entity that stays is found as before. -/
theorem entity?_without (hid : id ∉ gone) : (g.without gone).entity? id = g.entity? id := by
  change List.find? _ (List.filter _ _) = _
  rw [List.find?_filter, entity?]
  congr 1
  funext e
  by_cases he : e.id = id
  · simp [he, hid]
  · simp [he]

theorem holdsSource_without (sources : List String) (hid : id ∉ gone) :
    (g.without gone).holdsSource sources id = g.holdsSource sources id := by
  rw [holdsSource, holdsSource, entity?_without hid]

end Graph

end Linkage
