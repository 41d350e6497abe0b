import Linkage.Proofs.Graph.Relations
import Mathlib.Data.List.Nodup
import Mathlib.Data.List.Pairwise

namespace Linkage

namespace Fixture

variable {id : Int64} {owners after : Owners} {records : List Record} {entities : List Entity}

theorem owner?_eq_none {r : Record} : owner? owners r = none ↔ r ∉ owners.map Prod.fst := by
  rw [owner?, Option.map_eq_none_iff, List.find?_eq_none, List.mem_map]
  constructor
  · rintro h ⟨o, ho, rfl⟩
    exact h o ho (beq_self_eq_true _)
  · exact fun h o ho heq => h ⟨o, ho, beq_iff_eq.mp heq⟩

/-- The records of an entity are added when no record stands twice among all those met. -/
theorem checkRecords_eq_ok (h : (owners.map Prod.fst).Nodup) :
    checkRecords id owners records = .ok after ↔
      (records.reverse ++ owners.map Prod.fst).Nodup ∧
        after = (records.map fun r => (r, id)).reverse ++ owners := by
  induction records generalizing owners with
  | nil => simpa [checkRecords, h] using eq_comm
  | cons r rest ih =>
    unfold checkRecords
    split
    · rename_i first hfirst
      have hmet : r ∈ owners.map Prod.fst := by
        by_contra hnew
        rw [owner?_eq_none.mpr hnew] at hfirst
        cases hfirst
      refine iff_of_false nofun fun ⟨hnodup, _⟩ => ?_
      exact (List.nodup_append.mp hnodup).2.2 r (by simp) r hmet rfl
    · rename_i hnone
      have hnew : (((r, id) :: owners).map Prod.fst).Nodup :=
        List.nodup_cons.mpr ⟨owner?_eq_none.mp hnone, h⟩
      rw [ih hnew]
      simp

/-- No entity and no record has been met before. -/
theorem checkEntities_eq_ok {seen : List Int64} (hseen : seen.Nodup)
    (howners : (owners.map Prod.fst).Nodup) :
    checkEntities seen owners entities = .ok () ↔
      ((entities.map Entity.id).reverse ++ seen).Nodup ∧
        ((entities.flatMap Entity.records).reverse ++ owners.map Prod.fst).Nodup := by
  induction entities generalizing seen owners with
  | nil => simp [checkEntities, hseen, howners]
  | cons e rest ih =>
    unfold checkEntities
    split
    · rename_i hmet
      refine iff_of_false nofun fun ⟨hnodup, _⟩ => ?_
      exact (List.nodup_append.mp hnodup).2.2 e.id (by simp) e.id hmet rfl
    · rename_i hnew
      split
      · rename_i fault hfault
        refine iff_of_false nofun fun ⟨_, hnodup⟩ => ?_
        rw [List.flatMap_cons, List.reverse_append, List.append_assoc] at hnodup
        have hok : checkRecords e.id owners e.records = .ok _ :=
          (checkRecords_eq_ok howners).mpr ⟨hnodup.of_append_right, rfl⟩
        rw [hfault] at hok
        cases hok
      · rename_i after hafter
        obtain ⟨hnodup, rfl⟩ := (checkRecords_eq_ok howners).mp hafter
        have hfst : ((e.records.map fun r => (r, e.id)).reverse ++ owners).map Prod.fst =
            e.records.reverse ++ owners.map Prod.fst := by simp [Function.comp_def]
        rw [ih (List.nodup_cons.mpr ⟨hnew, hseen⟩) (hfst ▸ hnodup), hfst]
        simp

/-- A fixture is accepted when entities and records are given once, and every relationship joins two
known entities. -/
theorem check_eq_ok {f : Fixture} : f.check = .ok () ↔
    f.ids.Nodup ∧ (f.entities.flatMap Entity.records).Nodup ∧
      ∀ r ∈ f.relationships, r.left ∈ f.ids ∧ r.right ∈ f.ids ∧ r.left ≠ r.right := by
  have hentities : checkEntities [] [] f.entities = .ok () ↔ _ := checkEntities_eq_ok .nil .nil
  rw [List.append_nil, List.map_nil, List.append_nil, List.nodup_reverse,
    List.nodup_reverse] at hentities
  rw [check, ← and_assoc, ids, ← hentities, ← ids, ← checkRelationships_eq_ok]
  cases checkEntities [] [] f.entities <;> simp

end Fixture

namespace Graph

theorem ofFixture_fixture (g : Graph) : ofFixture g.fixture = .ok g := by
  unfold ofFixture
  split
  · rfl
  · rename_i fault hfault
    cases g.accepted.symm.trans hfault

variable {g : Graph} {e : Entity} {r : Record}

/-- A record belongs to the one entity that has it. -/
theorem ownerOf?_of_mem (he : e ∈ g.fixture.entities) (hr : r ∈ e.records) :
    g.ownerOf? r = some e.id := by
  obtain ⟨_, hrecords, _⟩ := Fixture.check_eq_ok.mp g.accepted
  have hdisjoint := (List.nodup_flatMap.mp hrecords).2
  cases hfind : g.fixture.entities.find? fun e => e.records.contains r with
  | none => exact absurd (by simpa using hr) (List.find?_eq_none.mp hfind e he)
  | some d =>
    have hd : r ∈ d.records := by simpa using List.find?_some hfind
    have : Std.Symm (Function.onFun List.Disjoint Entity.records) := ⟨fun _ _ => List.disjoint_symm⟩
    have hsame : d = e := by
      by_contra hne
      exact hdisjoint.forall (List.mem_of_find?_eq_some hfind) he hne hd hr
    rw [ownerOf?, hfind, hsame, Option.map_some]

end Graph

end Linkage
