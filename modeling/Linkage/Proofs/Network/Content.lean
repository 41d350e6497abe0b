import Linkage.Proofs.Engine.Answers
import Linkage.Proofs.Network.Growth
import Linkage.Proofs.Search.Found

namespace Linkage

/-- The numbers of the entities that a document lists. -/
def Document.ids (d : Document) : List Int64 := d.entities.map fun e => e.resolved.id

/-- The members of a network and the entities on the paths that its document lists. -/
def Document.around (d : Document) (members : List Int64) : Set Int64 :=
  {id | id ∈ members ∨ ∃ p ∈ d.paths, id ∈ p.entities}

theorem mem_pairs {list : List Int64} {ends : Int64 × Int64} (h : ends ∈ pairs list) :
    ends.1 ∈ list ∧ ends.2 ∈ list := by
  induction list with
  | nil => cases h
  | cons id rest ih =>
    rcases List.mem_append.mp h with h | h
    · obtain ⟨other, ho, rfl⟩ := List.mem_map.mp h
      exact ⟨List.mem_cons_self, List.mem_cons_of_mem _ ho⟩
    · exact ⟨List.mem_cons_of_mem _ (ih h).1, List.mem_cons_of_mem _ (ih h).2⟩

theorem pairs_ne {list : List Int64} (hnodup : list.Nodup) {a b : Int64}
    (h : (a, b) ∈ pairs list) : a ≠ b := by
  induction list with
  | nil => cases h
  | cons id rest ih =>
    obtain ⟨hnew, hrest⟩ := List.nodup_cons.mp hnodup
    rcases List.mem_append.mp h with h | h
    · obtain ⟨other, ho, heq⟩ := List.mem_map.mp h
      cases heq
      rintro rfl
      exact hnew ho
    · exact ih hrest h

/-- Two members are a pair, the earlier one first. -/
theorem pairs_of_ne {list : List Int64} {a b : Int64} (ha : a ∈ list) (hb : b ∈ list)
    (hne : a ≠ b) : (a, b) ∈ pairs list ∨ (b, a) ∈ pairs list := by
  induction list with
  | nil => cases ha
  | cons id rest ih =>
    rw [pairs, List.mem_append, List.mem_append, List.mem_map, List.mem_map]
    rcases List.mem_cons.mp ha with rfl | har <;> rcases List.mem_cons.mp hb with rfl | hbr
    · exact absurd rfl hne
    · exact .inl (.inl ⟨b, hbr, rfl⟩)
    · exact .inr (.inl ⟨a, har, rfl⟩)
    · exact (ih har hbr).imp .inr .inr

namespace Graph

variable {g : Graph} {members : List Int64} {maxDegrees rounds limit : Nat}

/-! ## Counting -/

namespace Gathered

variable {core entities : List Int64} {limitReached : Bool}

/-- Then it fills the larger of the limit and the base. -/
theorem full_length (h : g.Gathered core limit rounds entities limitReached)
    (hcore : core.Nodup) (hfull : limitReached = true) :
    entities.length = max limit core.length := by
  have hlimit := (h.full hfull).1
  have hbounded := h.bounded
  have hholds : core.length ≤ entities.length := hcore.length_le_of_subset h.holds
  omega

/-- A build-out is stopped exactly when the vicinity is larger than the limit and the base. -/
theorem limited (h : g.Gathered core limit rounds entities limitReached) (hcore : core.Nodup) :
    limitReached = true ↔
      max limit core.length < (g.vicinity {id | id ∈ core} rounds).ncard := by
  constructor
  · intro hfull
    obtain ⟨_, id, hid, hout⟩ := h.full hfull
    rw [← h.full_length hcore hfull, ← ncard_list h.nodup]
    exact Set.ncard_lt_ncard ⟨h.near, fun hsub => hout (hsub hid)⟩ (Set.toFinite _)
  · intro hlt
    by_contra hgo
    have hall := h.all (Bool.not_eq_true _ ▸ hgo)
    have hle : (g.vicinity {id | id ∈ core} rounds).ncard ≤ {id | id ∈ entities}.ncard :=
      Set.ncard_le_ncard hall (Set.toFinite _)
    rw [ncard_list h.nodup] at hle
    have hbounded := h.bounded
    omega

end Gathered

/-! ## The network of some members -/

theorem mem_base {paths : List EntityPath} {id : Int64} :
    id ∈ base members paths ↔ id ∈ members ∨ ∃ p ∈ paths, id ∈ p.entities := by
  rw [base, mem_includeAll, List.mem_flatMap]

/-- The base of a network: its members, each once, and the entities on the paths between them. -/
def core (g : Graph) (members : List Int64) (maxDegrees : Nat) : List Int64 :=
  base (includeAll [] members) (g.pairPaths maxDegrees (includeAll [] members))

theorem core_nodup (g : Graph) (members : List Int64) (maxDegrees : Nat) :
    (g.core members maxDegrees).Nodup :=
  nodup_includeAll (nodup_includeAll List.nodup_nil)

theorem memberPath_known {ends : Int64 × Int64} (h : ends.1 ∈ g.fixture.ids) :
    ∀ id ∈ (g.memberPath maxDegrees ends).entities, id ∈ g.fixture.ids := by
  unfold memberPath
  cases hpath : g.shortestPath ends.1 ends.2 maxDegrees [] none with
  | none => exact nofun
  | some path => exact (shortestPath_sound hpath).1.walk.known h

/-- Known members have a base of known entities. -/
theorem core_known (h : ∀ id ∈ members, id ∈ g.fixture.ids) :
    ∀ id ∈ g.core members maxDegrees, id ∈ g.fixture.ids := by
  have hmembers (id : Int64) (hid : id ∈ includeAll [] members) : id ∈ g.fixture.ids :=
    h id (mem_includeAll_nil.mp hid)
  intro id hid
  rcases mem_base.mp hid with hid | ⟨p, hp, hid⟩
  · exact hmembers id hid
  · obtain ⟨ends, hends, rfl⟩ := List.mem_map.mp hp
    exact memberPath_known (hmembers _ (mem_pairs hends).1) id hid

theorem network_gathered (g : Graph) (members : List Int64) (maxDegrees rounds limit : Nat) :
    g.Gathered (g.core members maxDegrees) limit rounds
      (g.network members maxDegrees rounds limit).entities
      (g.network members maxDegrees rounds limit).limitReached := by
  have h := buildOut_gathered (surveyed_core g limit (g.core_nodup members maxDegrees)) rounds
  rwa [Nat.zero_add] at h

/-! ## The document -/

/-- A document with a path for each two members: the one that a search for them finds, and no
entities if it finds none. -/
structure ListsPaths (g : Graph) (members : List Int64) (maxDegrees : Nat) (d : Document) :
    Prop where
  between : ∀ p ∈ d.paths, p.origin ∈ members ∧ p.target ∈ members ∧
    p.entities = (g.shortestPath p.origin p.target maxDegrees [] none).getD []
  each : ∀ a ∈ members, ∀ b ∈ members, a ≠ b →
    ∃ p ∈ d.paths, (p.origin = a ∧ p.target = b) ∨ (p.origin = b ∧ p.target = a)

/-- A document that lists the entities at most so many steps away from a base, none twice. It
leaves some out only if these are more than the limit and the base, and says so. -/
structure ListsVicinity (g : Graph) (base : Set Int64) (rounds limit : Nat) (d : Document) :
    Prop where
  distinct : d.ids.Nodup
  holds : ∀ id ∈ base, id ∈ d.ids
  near : ∀ id ∈ d.ids, id ∈ g.vicinity base rounds
  flagged : d.limitReached.isSome
  limited : d.limitReached = some true ↔ max limit base.ncard < (g.vicinity base rounds).ncard
  all : d.limitReached = some false → ∀ id ∈ g.vicinity base rounds, id ∈ d.ids
  full : d.limitReached = some true → d.ids.length = max limit base.ncard

theorem describeNetwork_listsPaths (g : Graph) (members : List Int64)
    (maxDegrees rounds limit : Nat) :
    g.ListsPaths members maxDegrees (g.describeNetwork members maxDegrees rounds limit) := by
  constructor
  · intro p hp
    obtain ⟨ends, hends, rfl⟩ := List.mem_map.mp hp
    obtain ⟨ho, ht⟩ := mem_pairs hends
    exact ⟨mem_includeAll_nil.mp ho, mem_includeAll_nil.mp ht, rfl⟩
  · intro a ha b hb hne
    rcases pairs_of_ne (mem_includeAll_nil.mpr ha) (mem_includeAll_nil.mpr hb) hne with h | h
    · exact ⟨g.memberPath maxDegrees (a, b), List.mem_map_of_mem h, .inl ⟨rfl, rfl⟩⟩
    · exact ⟨g.memberPath maxDegrees (b, a), List.mem_map_of_mem h, .inr ⟨rfl, rfl⟩⟩

theorem describeNetwork_around (g : Graph) (members : List Int64)
    (maxDegrees rounds limit : Nat) :
    (g.describeNetwork members maxDegrees rounds limit).around members =
      {id | id ∈ g.core members maxDegrees} := by
  refine Set.ext fun id => Iff.trans ?_ mem_base.symm
  rw [mem_includeAll_nil]
  rfl

theorem describeNetwork_ids (h : ∀ id ∈ members, id ∈ g.fixture.ids) :
    (g.describeNetwork members maxDegrees rounds limit).ids =
      (g.network members maxDegrees rounds limit).entities :=
  listed_known fun id hid =>
    vicinity_known (core_known h) rounds id ((g.network_gathered ..).near id hid)

theorem describeNetwork_listsVicinity (h : ∀ id ∈ members, id ∈ g.fixture.ids) :
    g.ListsVicinity ((g.describeNetwork members maxDegrees rounds limit).around members)
      rounds limit (g.describeNetwork members maxDegrees rounds limit) := by
  have hcore := g.core_nodup members maxDegrees
  have hg := g.network_gathered members maxDegrees rounds limit
  have hflag : (g.describeNetwork members maxDegrees rounds limit).limitReached =
      some (g.network members maxDegrees rounds limit).limitReached := rfl
  rw [describeNetwork_around]
  constructor <;> simp only [describeNetwork_ids h, hflag, ncard_list hcore, Option.some.injEq]
  case distinct => exact hg.nodup
  case holds => exact hg.holds
  case near => exact hg.near
  case flagged => rfl
  case limited => exact hg.limited hcore
  case all => exact hg.all
  case full => exact hg.full_length hcore

/-- **The exact content of a network.** Around known members a document lists the shortest paths
between them, and the entities at most `rounds` steps away from the members and these paths, each
once: all of them unless they are more than the limit and the base, and otherwise as many as the
larger of the two. -/
theorem network_lists_vicinity (g : Graph) (members : List Int64)
    (maxDegrees rounds limit : Nat) (h : ∀ id ∈ members, id ∈ g.fixture.ids) :
    g.ListsPaths members maxDegrees (g.describeNetwork members maxDegrees rounds limit) ∧
      g.ListsVicinity ((g.describeNetwork members maxDegrees rounds limit).around members)
        rounds limit (g.describeNetwork members maxDegrees rounds limit) :=
  ⟨g.describeNetwork_listsPaths members maxDegrees rounds limit, describeNetwork_listsVicinity h⟩

/-- Five entities in a line. -/
def line : Graph where
  fixture :=
    { sources := []
      entities := [⟨1, none, [], .empty⟩, ⟨2, none, [], .empty⟩, ⟨3, none, [], .empty⟩,
        ⟨4, none, [], .empty⟩, ⟨5, none, [], .empty⟩]
      relationships := [⟨1, 2, 0, none, false, false⟩, ⟨2, 3, 0, none, false, false⟩,
        ⟨3, 4, 0, none, false, false⟩, ⟨4, 5, 0, none, false, false⟩] }
  accepted := by decide +kernel

/-- Around 1 and 3 the base is 1, 2 and 3, and the limit leaves no room for 5. -/
theorem line_lists_vicinity :
    (∀ id ∈ [3, 1, 3], id ∈ line.fixture.ids) ∧
      line.ListsPaths [3, 1, 3] 2 (line.describeNetwork [3, 1, 3] 2 2 4) ∧
      line.ListsVicinity ((line.describeNetwork [3, 1, 3] 2 2 4).around [3, 1, 3]) 2 4
        (line.describeNetwork [3, 1, 3] 2 2 4) :=
  have hknown : ∀ id ∈ [3, 1, 3], id ∈ line.fixture.ids := by
    -- Not decided over all numbers: the list is taken apart first.
    simp only [List.forall_mem_cons, List.not_mem_nil, false_implies, implies_true, and_true]
    decide +kernel
  ⟨hknown, network_lists_vicinity line [3, 1, 3] 2 2 4 hknown⟩

end Graph

end Linkage
