import Linkage.Proofs.Engine.Names
import Linkage.Proofs.Text.Tables

namespace Linkage

section Reversed

variable {α : Type} {p : α → Bool} {items : List α}

/-- Where only one item is looked for, it is found from either end of a list. -/
theorem find?_reverse (h : ∀ a ∈ items, ∀ b ∈ items, p a → p b → a = b) :
    items.reverse.find? p = items.find? p := by
  cases hfind : items.find? p with
  | none =>
    rw [List.find?_eq_none] at hfind ⊢
    intro a ha
    exact hfind a (List.mem_reverse.mp ha)
  | some a =>
    have ha : a ∈ items := List.mem_of_find?_eq_some hfind
    have hpa : p a = true := List.find?_some hfind
    have hsome : (items.reverse.find? p).isSome = true :=
      List.find?_isSome.mpr ⟨a, List.mem_reverse.mpr ha, hpa⟩
    obtain ⟨b, hb⟩ := Option.isSome_iff_exists.mp hsome
    have hmem : b ∈ items := List.mem_reverse.mp (List.mem_of_find?_eq_some hb)
    rw [hb, h b hmem a ha (List.find?_some hb) hpa]

end Reversed

namespace Fixture

/-- What a fixture has to be to make a graph. -/
structure WellFormed (f : Fixture) : Prop where
  /-- No two entities have one number. -/
  entities_once : f.ids.Nodup
  /-- No record is given twice, by two entities or by one. -/
  records_once : (f.entities.flatMap Entity.records).Nodup
  ends_listed : ∀ r ∈ f.relationships, r.left ∈ f.ids ∧ r.right ∈ f.ids
  ends_differ : ∀ r ∈ f.relationships, r.left ≠ r.right

/-- The accepted fixtures are the well-formed ones. -/
theorem check_ok_iff {f : Fixture} : f.check = .ok () ↔ f.WellFormed := by
  rw [check_eq_ok]
  constructor
  · rintro ⟨hids, hrecords, hends⟩
    exact ⟨hids, hrecords, fun r hr => ⟨(hends r hr).1, (hends r hr).2.1⟩,
      fun r hr => (hends r hr).2.2⟩
  · rintro ⟨hids, hrecords, hlisted, hdiffer⟩
    exact ⟨hids, hrecords, fun r hr => ⟨(hlisted r hr).1, (hlisted r hr).2, hdiffer r hr⟩⟩

/-- All records with the entities that list them, in the order in which they are entered in a table:
the latest first. -/
def owners (f : Fixture) : Owners :=
  (f.entities.flatMap fun e => e.records.map fun r => (r, e.id)).reverse

/-- The entity that is entered last under a number. -/
def latest? (f : Fixture) (id : Int64) : Option Entity :=
  f.entities.reverse.find? fun e => e.id == id

/-- The table of owners holds each record of the fixture with its entity. -/
theorem mem_owners {f : Fixture} {r : Record} {id : Int64} :
    (r, id) ∈ f.owners ↔ ∃ e ∈ f.entities, e.id = id ∧ r ∈ e.records := by
  simp only [owners, List.mem_reverse, List.mem_flatMap, List.mem_map, Prod.mk.injEq]
  constructor
  · rintro ⟨e, he, r', hr, rfl, rfl⟩
    exact ⟨e, he, rfl, hr⟩
  · rintro ⟨e, he, rfl, hr⟩
    exact ⟨e, he, r, hr, rfl, rfl⟩

end Fixture

namespace Graph

variable {g : Graph} {r : Record} {id : Int64}

theorem ownerOf?_eq_some :
    g.ownerOf? r = some id ↔ ∃ e ∈ g.fixture.entities, e.id = id ∧ r ∈ e.records := by
  constructor
  · intro h
    obtain ⟨e, he, rfl⟩ := Option.map_eq_some_iff.mp h
    have hr : r ∈ e.records := by simpa using List.find?_some he
    exact ⟨e, List.mem_of_find?_eq_some he, rfl, hr⟩
  · rintro ⟨e, he, rfl, hr⟩
    exact ownerOf?_of_mem he hr

/-- A record is entered once, so that its entry is never replaced. -/
theorem owner?_owners (g : Graph) (r : Record) :
    Fixture.owner? g.fixture.owners r = g.ownerOf? r := by
  cases howner : Fixture.owner? g.fixture.owners r with
  | none =>
    have hnone : ¬ (g.ownerOf? r).isSome = true := by
      intro hsome
      obtain ⟨id, hid⟩ := Option.isSome_iff_exists.mp hsome
      have hentered := Fixture.mem_owners.mpr (ownerOf?_eq_some.mp hid)
      exact Fixture.owner?_eq_none.mp howner (List.mem_map_of_mem hentered)
    exact (Option.not_isSome_iff_eq_none.mp hnone).symm
  | some id =>
    obtain ⟨⟨r', id'⟩, hfound, rfl⟩ := Option.map_eq_some_iff.mp howner
    have hkey := List.find?_some hfound
    obtain rfl : r' = r := beq_iff_eq.mp hkey
    have hlists := Fixture.mem_owners.mp (List.mem_of_find?_eq_some hfound)
    exact (ownerOf?_eq_some.mpr hlists).symm

theorem latest?_eq (g : Graph) (id : Int64) : g.fixture.latest? id = g.entity? id := by
  obtain ⟨hids, -, -⟩ := Fixture.check_eq_ok.mp g.accepted
  apply find?_reverse
  intro a ha b hb hida hidb
  exact List.inj_on_of_nodup_map hids ha hb ((beq_iff_eq.mp hida).trans (beq_iff_eq.mp hidb).symm)

theorem requireRecord_eq_ok :
    g.requireRecord r = .ok id ↔ ∃ e ∈ g.fixture.entities, e.id = id ∧ r ∈ e.records := by
  rw [← ownerOf?_eq_some, requireRecord]
  cases g.ownerOf? r <;> simp

theorem requireRecord_unlisted (h : ∀ e ∈ g.fixture.entities, r ∉ e.records) :
    g.requireRecord r = .error (.unknownRecord r) := by
  cases howner : g.ownerOf? r with
  | none => rw [requireRecord, howner]
  | some id =>
    obtain ⟨e, he, -, hr⟩ := ownerOf?_eq_some.mp howner
    exact absurd hr (h e he)

theorem requireEntity_unlisted (h : id ∉ g.fixture.ids) :
    g.requireEntity id = .error (.unknownEntity id) := by
  have hnone : g.entity? id = none := by
    rw [← Option.not_isSome_iff_eq_none, g.entity?_isSome]
    exact h
  rw [requireEntity, hnone]

theorem requireEntity_eq_ok {found : Int64} :
    g.requireEntity id = .ok found ↔ found = id ∧ id ∈ g.fixture.ids := by
  by_cases hid : id ∈ g.fixture.ids
  · rw [requireEntity_ok hid, Except.ok.injEq, and_iff_left hid, eq_comm]
  · rw [requireEntity_unlisted hid]
    simp [hid]

theorem mem_sources {s : String} : s ∈ g.sources ↔
    s ∈ g.fixture.sources ∨ ∃ e ∈ g.fixture.entities, ∃ r ∈ e.records, r.dataSource = s := by
  simp only [sources, Text.Sorted.mem_ofList, List.mem_append, List.mem_flatMap, List.mem_map]

/-- Every look-up finds what the fixture lists, and fails where it lists nothing. Tables in which a
later entry replaces an earlier one would hold the same, because none does. -/
structure IsExact (g : Graph) : Prop where
  record : ∀ r id, g.requireRecord r = .ok id ↔ ∃ e ∈ g.fixture.entities, e.id = id ∧ r ∈ e.records
  noRecord : ∀ r, (∀ e ∈ g.fixture.entities, r ∉ e.records) →
    g.requireRecord r = .error (.unknownRecord r)
  entity : ∀ id found, g.requireEntity id = .ok found ↔ found = id ∧ id ∈ g.fixture.ids
  noEntity : ∀ id, id ∉ g.fixture.ids → g.requireEntity id = .error (.unknownEntity id)
  sources : ∀ s, s ∈ g.sources ↔
    s ∈ g.fixture.sources ∨ ∃ e ∈ g.fixture.entities, ∃ r ∈ e.records, r.dataSource = s
  sources_once : g.sources.Pairwise (· < ·)
  owners : ∀ r, Fixture.owner? g.fixture.owners r = g.ownerOf? r
  entities : ∀ id, g.fixture.latest? id = g.entity? id

theorem isExact (g : Graph) : g.IsExact where
  record _ _ := requireRecord_eq_ok
  noRecord _ := requireRecord_unlisted
  entity _ _ := requireEntity_eq_ok
  noEntity _ := requireEntity_unlisted
  sources _ := mem_sources
  sources_once := Text.Sorted.increasing_ofList _
  owners := g.owner?_owners
  entities := g.latest?_eq

/-- A graph is made of the fixture that it has. -/
theorem ofFixture_eq_ok {f : Fixture} {g : Graph} : ofFixture f = .ok g ↔ g.fixture = f := by
  constructor
  · intro h
    unfold ofFixture at h
    split at h
    · cases h
      rfl
    · cases h
  · rintro rfl
    exact ofFixture_fixture g

end Graph

/-- **Acceptance is exact.** A fixture makes a graph exactly when it gives entities and records once
and relates only different entities that it lists. In that graph no look-up is ambiguous: a record
belongs to the entity that lists it, a number to the entity that has it, and the data sources are
the declared ones with those of the records. -/
theorem acceptance_is_exact (f : Fixture) :
    (f.check = .ok () ↔ f.WellFormed) ∧ (f.WellFormed → ∃ g, Graph.ofFixture f = .ok g) ∧
      ∀ g, Graph.ofFixture f = .ok g → g.fixture = f ∧ g.IsExact := by
  refine ⟨Fixture.check_ok_iff, fun h => ?_, fun g hg => ?_⟩
  · have haccepted : f.check = .ok () := Fixture.check_ok_iff.mpr h
    exact ⟨⟨f, haccepted⟩, Graph.ofFixture_eq_ok.mpr rfl⟩
  · exact ⟨Graph.ofFixture_eq_ok.mp hg, g.isExact⟩

/-- Two entities whose records differ only in their sources, and a declared source without
records. -/
def sharedNumber : Fixture where
  sources := ["EMPTY", "CUSTOMERS"]
  entities := [⟨7, none, [⟨"CUSTOMERS", "1"⟩, ⟨"CUSTOMERS", "2"⟩], .empty⟩,
    ⟨-3, none, [⟨"WATCHLIST", "1"⟩], .empty⟩]
  relationships := [⟨7, -3, 0, none, false, false⟩, ⟨-3, 7, 1, none, true, false⟩]

theorem sharedNumber_exact :
    sharedNumber.WellFormed ∧ ∃ g, Graph.ofFixture sharedNumber = .ok g ∧ g.fixture = sharedNumber ∧
      g.requireRecord ⟨"WATCHLIST", "1"⟩ = .ok (-3) ∧ g.requireEntity 7 = .ok 7 ∧
      g.requireRecord ⟨"EMPTY", "1"⟩ = .error (.unknownRecord ⟨"EMPTY", "1"⟩) ∧
      "EMPTY" ∈ g.sources ∧ "WATCHLIST" ∈ g.sources := by
  obtain ⟨haccepted, hmakes, hexact⟩ := acceptance_is_exact sharedNumber
  have hwell : sharedNumber.WellFormed := haccepted.mp (by decide +kernel)
  obtain ⟨g, hg⟩ := hmakes hwell
  obtain ⟨hfixture, hlooks⟩ := hexact g hg
  refine ⟨hwell, g, hg, hfixture, (hlooks.record _ _).mpr ?_, (hlooks.entity _ _).mpr ?_,
    hlooks.noRecord _ ?_, (hlooks.sources _).mpr ?_, (hlooks.sources _).mpr ?_⟩
  all_goals
    rw [hfixture]
    decide +kernel

end Linkage
