import Linkage.Proofs.Engine.Answers
import Linkage.Proofs.Engine.Lists
import Linkage.Proofs.Graph.Owners

namespace Linkage

/-- An entity goes by its number and by each of its records. -/
def Entity.NamedBy (e : Entity) : Identifier → Prop
  | .entity id => id = e.id
  | .record r => r ∈ e.records

instance (e : Entity) : (id : Identifier) → Decidable (e.NamedBy id)
  | .entity id => inferInstanceAs (Decidable (id = e.id))
  | .record r => inferInstanceAs (Decidable (r ∈ e.records))

/-- The identifiers of a list in the order in which they are looked up: numbers before records. -/
def IdentifierList.names (list : IdentifierList) : List Identifier :=
  list.entities.map .entity ++ list.records.map .record

theorem IdentifierList.Holds.names_eq {list : IdentifierList} {kind : Kind} {ids : List Identifier}
    (h : list.Holds kind ids) : list.names = ids := by
  obtain ⟨entities, records⟩ := list
  cases kind with
  | record =>
    obtain ⟨rfl, rfl⟩ := h
    rfl
  | entity =>
    obtain ⟨rfl, rfl⟩ := h
    exact List.append_nil _

namespace Graph

variable {g : Graph}

/-- The entity that an identifier stands for. -/
def require (g : Graph) : Identifier → Except EngineFault Int64
  | .entity id => g.requireEntity id
  | .record r => g.requireRecord r

/-- An entity is found by each of its names. -/
theorem require_named {e : Entity} {id : Identifier} (he : e ∈ g.fixture.entities)
    (h : e.NamedBy id) : g.require id = .ok e.id := by
  cases id with
  | entity id =>
    cases h
    exact requireEntity_ok (List.mem_map_of_mem he)
  | record r => rw [require, requireRecord, ownerOf?_of_mem he h]

theorem requireAll_names (g : Graph) (list : IdentifierList) :
    g.requireAll list = list.names.mapM g.require := by
  rw [IdentifierList.names, List.mapM_append, List.mapM_map, List.mapM_map]
  rfl

/-- An identifier stands for an entity that goes by it. -/
def StandsFor (g : Graph) (name : Identifier) (id : Int64) : Prop :=
  ∃ e ∈ g.fixture.entities, e.NamedBy name ∧ e.id = id

instance (name : Identifier) (id : Int64) : Decidable (g.StandsFor name id) :=
  inferInstanceAs (Decidable (∃ e ∈ g.fixture.entities, _))

theorem StandsFor.require {name : Identifier} {id : Int64} (h : g.StandsFor name id) :
    g.require name = .ok id := by
  obtain ⟨e, he, hname, rfl⟩ := h
  exact require_named he hname

theorem StandsFor.known {name : Identifier} {id : Int64} (h : g.StandsFor name id) :
    id ∈ g.fixture.ids := by
  obtain ⟨e, he, _, rfl⟩ := h
  exact List.mem_map_of_mem he

theorem standFor_known {names : List Identifier} {ids : List Int64}
    (h : List.Forall₂ g.StandsFor names ids) : ∀ id ∈ ids, id ∈ g.fixture.ids := by
  induction h with
  | nil => exact nofun
  | cons hfirst _ ih => exact List.forall_mem_cons.mpr ⟨hfirst.known, ih⟩

/-- Two identifiers of one entity. -/
def SameEntity (g : Graph) (a b : Identifier) : Prop :=
  ∃ e ∈ g.fixture.entities, e.NamedBy a ∧ e.NamedBy b

instance (a b : Identifier) : Decidable (g.SameEntity a b) :=
  inferInstanceAs (Decidable (∃ e ∈ g.fixture.entities, e.NamedBy a ∧ e.NamedBy b))

theorem SameEntity.require {a b : Identifier} (h : g.SameEntity a b) :
    ∃ id, g.require a = .ok id ∧ g.require b = .ok id := by
  obtain ⟨e, he, ha, hb⟩ := h
  exact ⟨e.id, require_named he ha, require_named he hb⟩

/-- Lists that name the same entities one by one stand for the same numbers. -/
theorem requires_same {ids others : List Identifier} (h : List.Forall₂ g.SameEntity ids others) :
    ∃ found, ids.mapM g.require = .ok found ∧ others.mapM g.require = .ok found := by
  simp only [mapM_eq_ok]
  induction h with
  | nil => exact ⟨[], .nil, .nil⟩
  | cons hfirst _ ih =>
    obtain ⟨id, ha, hb⟩ := hfirst.require
    obtain ⟨rest, has, hbs⟩ := ih
    exact ⟨id :: rest, .cons ha has, .cons hb hbs⟩

end Graph

end Linkage
