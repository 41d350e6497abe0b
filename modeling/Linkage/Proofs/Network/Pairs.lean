import Linkage.Proofs.Engine.Avoidance
import Linkage.Proofs.Engine.Names
import Linkage.Proofs.Network.Limits
import Mathlib.Data.List.FinRange
import Mathlib.Data.Nat.Choose.Basic

namespace Linkage

/-! ## Pairs of places -/

/-- The pairs `i < j` of places in a list of `n` items, in order of `i` and then of `j`. -/
def eachTwo (n : Nat) : List (Fin n × Fin n) :=
  (List.finRange n).flatMap fun i =>
    ((List.finRange n).filter fun j => i < j).map fun j => (i, j)

/-- The first place with each of the others, and then the pairs of these. -/
theorem eachTwo_succ (n : Nat) :
    eachTwo (n + 1) = (List.finRange n).map (fun j => (0, j.succ)) ++
      (eachTwo n).map fun places => (places.1.succ, places.2.succ) := by
  rw [eachTwo, List.finRange_succ, List.flatMap_cons]
  congr 1
  · -- The first place is before all others, and not before itself.
    rw [List.filter_cons_of_neg (by simp), List.filter_map, List.map_map]
    congr 1
    apply List.filter_eq_self.mpr
    intro j _
    simp
  · rw [List.flatMap_map, eachTwo, List.map_flatMap]
    congr 1
    funext i
    simp [List.filter_map, Function.comp_def]

/-- The pairs are those of places `i < j`, in order of `i` and then of `j`. -/
theorem pairs_eq (list : List Int64) : pairs list =
    (eachTwo list.length).map fun places => (list.get places.1, list.get places.2) := by
  induction list with
  | nil => rfl
  | cons id rest ih =>
    have hplaces : eachTwo (id :: rest).length = _ := eachTwo_succ rest.length
    have hothers : rest.map (fun other => (id, other)) =
        (List.finRange rest.length).map fun j => (id, rest.get j) := by
      nth_rw 1 [← List.map_get_finRange rest]
      rw [List.map_map]
      rfl
    rw [hplaces, List.map_append, List.map_map, List.map_map, pairs, ih, hothers]
    rfl

theorem length_pairs (list : List Int64) :
    (pairs list).length = list.length * (list.length - 1) / 2 := by
  induction list with
  | nil => rfl
  | cons id rest ih =>
    rw [pairs, List.length_append, List.length_map, ih, List.length_cons, Nat.triangle_succ]
    omega

/-- An item that comes again is not kept a second time. -/
theorem eraseDups_again {α : Type} [BEq α] [LawfulBEq α] {before : List α} {item : α}
    (h : item ∈ before) (after : List α) :
    (before ++ item :: after).eraseDups = (before ++ after).eraseDups := by
  rw [List.eraseDups_append, List.eraseDups_append, List.cons_removeAll]
  simp [h]

namespace Graph

variable {g : Graph} {a b : Int64} {members : List Int64} {maxDegrees rounds limit : Nat}

/-! ## The paths -/

/-- The path that a call without filters reports between two entities; empty if there is none. -/
structure PlainPath (g : Graph) (a b : Int64) (maxDegrees : Nat) (path : EntityPath) : Prop where
  origin : path.origin = a
  target : path.target = b
  reported : g.Reports (.path (.entities a b) maxDegrees .unfiltered) path
  empty : path.entities = [] ↔ ¬ ∃ ids, g.IsPath a b maxDegrees ids

/-- A document with the path between each two members, in order. It lists the members first, and
the entities on these paths. -/
structure PairsMembers (g : Graph) (members : List Int64) (maxDegrees : Nat) (d : Document) :
    Prop where
  count : d.paths.length = members.length * (members.length - 1) / 2
  paths : List.Forall₂ (fun places path =>
      g.PlainPath (members.get places.1) (members.get places.2) maxDegrees path)
    (eachTwo members.length) d.paths
  first : members <+: d.ids
  holds : ∀ path ∈ d.paths, ∀ id ∈ path.entities, id ∈ d.ids
  once : d.ids.Nodup

/-- A member path is what a call without filters reports. -/
theorem memberPath_plain (ha : a ∈ g.fixture.ids) (hb : b ∈ g.fixture.ids) (maxDegrees : Nat) :
    g.PlainPath a b maxDegrees (g.memberPath maxDegrees (a, b)) where
  origin := rfl
  target := rfl
  reported := by
    have hends : g.requireEnds (.entities a b) = .ok (a, b) := by
      rw [requireEnds, requireEntity_ok ha, requireEntity_ok hb]
      rfl
    have hreports : g.Reports (.path (.entities a b) maxDegrees .unfiltered) _ :=
      reports_path maxDegrees hends fun _ => rfl
    rwa [bestPath_hard] at hreports
  empty := getD_shortestPath_eq_nil.trans plainPath_eq_none

theorem core_isPrefix_describeNetwork (h : ∀ id ∈ members, id ∈ g.fixture.ids) :
    g.core members maxDegrees <+: (g.describeNetwork members maxDegrees rounds limit).ids := by
  rw [describeNetwork_ids h]
  exact included_isPrefix_buildOut g.neighbours limit rounds _ _

theorem describeNetwork_pairsMembers (h : ∀ id ∈ members, id ∈ g.fixture.ids) :
    g.PairsMembers members.eraseDups maxDegrees
      (g.describeNetwork members maxDegrees rounds limit) := by
  have hpaths : (g.describeNetwork members maxDegrees rounds limit).paths =
      (pairs members.eraseDups).map (g.memberPath maxDegrees) := by
    rw [← includeAll_nil]
    rfl
  have hknown (place : Fin members.eraseDups.length) :
      members.eraseDups.get place ∈ g.fixture.ids :=
    h _ (List.mem_eraseDups.mp (List.get_mem members.eraseDups place))
  have hcore : g.core members maxDegrees <+:
      (g.describeNetwork members maxDegrees rounds limit).ids := core_isPrefix_describeNetwork h
  constructor
  case count => rw [hpaths, List.length_map, length_pairs]
  case paths =>
    rw [hpaths, pairs_eq, List.map_map, List.forall₂_map_right_iff, List.forall₂_same]
    intro places _
    exact memberPath_plain (hknown places.1) (hknown places.2) maxDegrees
  case first =>
    refine List.IsPrefix.trans ?_ hcore
    rw [core, base, includeAll_eq, ← includeAll_nil]
    exact List.prefix_append _ _
  case holds =>
    intro path hpath id hid
    apply hcore.subset
    exact mem_base.mpr (.inr ⟨path, hpath, hid⟩)
  case once => exact (describeNetwork_listsVicinity h).distinct

/-! ## Members that are named again -/

/-- One name more: at its place in a list its entity has been named before. -/
def NamesAgain (g : Graph) (names more : List Identifier) : Prop :=
  ∃ before name after, names = before ++ after ∧ more = before ++ name :: after ∧
    ∃ earlier ∈ before, g.SameEntity earlier name

/-- One name more stands for no other entities. -/
theorem NamesAgain.distinct {names more : List Identifier} (h : g.NamesAgain names more)
    (hnames : names.mapM g.require = .ok members) :
    ∃ others, more.mapM g.require = .ok others ∧ others.eraseDups = members.eraseDups := by
  obtain ⟨before, name, after, rfl, rfl, earlier, hearlier, hsame⟩ := h
  obtain ⟨found, hfound, hname⟩ := hsame.require
  rw [List.mapM_append] at hnames
  obtain ⟨ids, hbefore, hnames⟩ := Except.bind_eq_ok.mp hnames
  obtain ⟨rest, hafter, hnames⟩ := Except.bind_eq_ok.mp hnames
  cases hnames
  have hagain : found ∈ ids := by
    obtain ⟨id, hid, hrequired⟩ := mem_of_mapM hbefore hearlier
    cases hfound.symm.trans hrequired
    exact hid
  refine ⟨ids ++ found :: rest, ?_, eraseDups_again hagain rest⟩
  rw [List.mapM_append, List.mapM_cons, hbefore, hname, hafter]
  rfl

theorem namesAgain_distinct {names more : List Identifier}
    (h : Relation.ReflTransGen g.NamesAgain names more)
    (hnames : names.mapM g.require = .ok members) :
    ∃ others, more.mapM g.require = .ok others ∧ others.eraseDups = members.eraseDups := by
  induction h with
  | refl => exact ⟨members, hnames, rfl⟩
  | tail _ hstep ih =>
    obtain ⟨others, hothers, heq⟩ := ih
    obtain ⟨more, hmore, hdistinct⟩ := hstep.distinct hothers
    exact ⟨more, hmore, hdistinct.trans heq⟩

/-- A network depends on its members only as far as they differ. -/
theorem describeNetwork_eraseDups {others : List Int64}
    (h : others.eraseDups = members.eraseDups) :
    g.describeNetwork others maxDegrees rounds limit =
      g.describeNetwork members maxDegrees rounds limit := by
  have hincluded : includeAll [] others = includeAll [] members := by
    rw [includeAll_nil, includeAll_nil, h]
  simp only [describeNetwork, network, hincluded]

theorem answer_network {wording : Json.Wording} {kind : Kind} {text : String}
    {list : IdentifierList}
    (hlist : IdentifierList.ofText? text = some list)
    (hnames : list.names.mapM g.require = .ok members) :
    g.answer (.network kind text maxDegrees rounds limit) wording =
      .ok (g.describeNetwork members maxDegrees rounds limit) := by
  rw [answer, argument_ok.mpr hlist]
  refine Except.bind_eq_ok.mpr ⟨list, rfl, Except.bind_eq_ok.mpr ⟨members, ?_, rfl⟩⟩
  rw [requireAll_names, hnames]

/-- **The paths of a network.** A call with a list of known entities is answered. Its document has
one path for each two of them, in order of first occurrence, and that path is the one that a call
without filters reports. The entities that it lists begin with the members and include those of
every path. Naming members again, in the same way or another one, does not change it. -/
theorem network_pairs_members (g : Graph) (kind : Kind) {text : String} {list : IdentifierList}
    {members : List Int64} (maxDegrees rounds limit : Nat) (wording : Json.Wording)
    (hlist : IdentifierList.ofText? text = some list)
    (hmembers : List.Forall₂ g.StandsFor list.names members) :
    ∃ d, g.answer (.network kind text maxDegrees rounds limit) wording = .ok d ∧
      g.PairsMembers members.eraseDups maxDegrees d ∧
      ∀ (kind' : Kind) (text' : String) (list' : IdentifierList),
        IdentifierList.ofText? text' = some list' →
        Relation.ReflTransGen g.NamesAgain list.names list'.names →
        g.answer (.network kind' text' maxDegrees rounds limit) wording = .ok d := by
  have hnames : list.names.mapM g.require = .ok members :=
    mapM_eq_ok.mpr (hmembers.imp fun _ _ hname => hname.require)
  refine ⟨_, answer_network hlist hnames,
    describeNetwork_pairsMembers (standFor_known hmembers), ?_⟩
  intro kind' text' list' hlist' hagain
  obtain ⟨others, hothers, hdistinct⟩ := namesAgain_distinct hagain hnames
  rw [answer_network hlist' hothers, describeNetwork_eraseDups hdistinct]

/-- Three entities around 9, and 7 apart from them. -/
def star : Graph where
  fixture :=
    { sources := []
      entities := [⟨1, none, [⟨"A", "1"⟩, ⟨"B", "1"⟩], .empty⟩, ⟨2, none, [], .empty⟩,
        ⟨3, none, [⟨"A", "3"⟩], .empty⟩, ⟨7, none, [], .empty⟩, ⟨9, none, [], .empty⟩]
      relationships := [⟨9, 1, 0, none, false, false⟩, ⟨9, 2, 0, none, false, false⟩,
        ⟨9, 3, 0, none, false, false⟩] }
  accepted := by decide +kernel

def threeMembers : String :=
  "\x7b\"ENTITIES\":[\x7b\"ENTITY_ID\":3\x7d,\x7b\"ENTITY_ID\":7\x7d]," ++
    "\"RECORDS\":[\x7b\"DATA_SOURCE\":\"A\",\"RECORD_ID\":\"1\"\x7d]\x7d"

/-- The same members: 3 twice, and 1 by another of its records as well. -/
def fiveNames : String :=
  "\x7b\"ENTITIES\":[\x7b\"ENTITY_ID\":3\x7d,\x7b\"ENTITY_ID\":3\x7d,\x7b\"ENTITY_ID\":7\x7d]," ++
    "\"RECORDS\":[\x7b\"DATA_SOURCE\":\"A\",\"RECORD_ID\":\"1\"\x7d," ++
      "\x7b\"DATA_SOURCE\":\"B\",\"RECORD_ID\":\"1\"\x7d]\x7d"

/-- The path from 3 to 1 leads through 9, and there is none from 7. -/
theorem star_pairs_members :
    IdentifierList.ofText? threeMembers = some ⟨[3, 7], [⟨"A", "1"⟩]⟩ ∧
      List.Forall₂ star.StandsFor [.entity 3, .entity 7, .record ⟨"A", "1"⟩] [3, 7, 1] ∧
      ∃ d, star.answer (.network .entity threeMembers 3 0 10) .plain = .ok d ∧
        d.paths = [⟨3, 7, []⟩, ⟨3, 1, [3, 9, 1]⟩, ⟨7, 1, []⟩] ∧ d.ids = [3, 7, 1, 9] ∧
        star.PairsMembers [3, 7, 1] 3 d ∧
        star.answer (.network .record fiveNames 3 0 10) .plain = .ok d := by
  have hlist : IdentifierList.ofText? threeMembers = some ⟨[3, 7], [⟨"A", "1"⟩]⟩ := by
    decide +kernel
  have hagain : IdentifierList.ofText? fiveNames =
      some ⟨[3, 3, 7], [⟨"A", "1"⟩, ⟨"B", "1"⟩]⟩ := by
    decide +kernel
  have hmembers :
      List.Forall₂ star.StandsFor [.entity 3, .entity 7, .record ⟨"A", "1"⟩] [3, 7, 1] :=
    .cons (by decide +kernel) (.cons (by decide +kernel) (.cons (by decide +kernel) .nil))
  have hthree : star.NamesAgain [.entity 3, .entity 7, .record ⟨"A", "1"⟩]
      [.entity 3, .entity 3, .entity 7, .record ⟨"A", "1"⟩] :=
    ⟨[.entity 3], .entity 3, _, rfl, rfl, .entity 3, List.mem_cons_self, by decide +kernel⟩
  have hone : star.NamesAgain [.entity 3, .entity 3, .entity 7, .record ⟨"A", "1"⟩]
      [.entity 3, .entity 3, .entity 7, .record ⟨"A", "1"⟩, .record ⟨"B", "1"⟩] :=
    ⟨[.entity 3, .entity 3, .entity 7, .record ⟨"A", "1"⟩], .record ⟨"B", "1"⟩, [], rfl, rfl,
      .record ⟨"A", "1"⟩, by decide, by decide +kernel⟩
  obtain ⟨d, hd, hpairs, hsame⟩ := network_pairs_members star .entity 3 0 10 .plain hlist hmembers
  have hnames : (IdentifierList.names ⟨[3, 7], [⟨"A", "1"⟩]⟩).mapM star.require =
      .ok [3, 7, 1] := rfl
  cases hd.symm.trans (answer_network hlist hnames)
  exact ⟨hlist, hmembers, _, hd, by cbv, by cbv, hpairs,
    hsame .record fiveNames _ hagain (.tail (.single hthree) hone)⟩

end Graph

end Linkage
