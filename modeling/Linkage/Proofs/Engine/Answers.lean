import Linkage.Engine
import Linkage.Proofs.Checks
import Linkage.Proofs.Graph.Relations

namespace Linkage

/-- A call that is answered leaves its document in the buffer and no fault. -/
theorem Session.complete_ok (s : Session) (d : Document) :
    s.complete (.ok d) = (0, ⟨d.text, none⟩) := by
  simp [complete, write, clear]

/-- A call that fails leaves nothing in the buffer. -/
theorem Session.complete_error (s : Session) (fault : EngineFault) :
    s.complete (.error fault) = (failed, ⟨"", some fault⟩) := rfl

/-- A session that reports success holds the text of the call's document. -/
theorem Session.call_ok {g : Graph} {s after : Session} {c : Call} {wording : Json.Wording} :
    s.call g c wording = (0, after) ↔ ∃ d, g.answer c wording = .ok d ∧ after = ⟨d.text, none⟩ := by
  unfold Session.call
  cases g.answer c wording with
  | ok d =>
    rw [complete_ok]
    simp [eq_comm]
  | error fault =>
    rw [complete_error]
    have hstatus : failed ≠ 0 := by decide
    simp [hstatus]

namespace Graph

variable {g : Graph} {wording : Json.Wording}

theorem argument_ok {α : Type} {name reason : String} {list? : Option α} {list : α} :
    argument name reason list? = .ok list ↔ list? = some list := by
  cases list? <;> simp [argument]

/-- Avoiding where possible is the lowest bit of the flags. -/
theorem prefersExclude_iff {flags : Int64} :
    prefersExclude flags = true ↔ flags &&& Call.preferExclude ≠ 0 := by
  have hand : flags &&& Call.preferExclude = 0 ↔ flags.toBitVec.toNat % 2 = 0 := by
    rw [← Int64.toBitVec_inj, ← BitVec.toNat_inj, Int64.toBitVec_and, BitVec.toNat_and]
    change flags.toBitVec.toNat &&& 1 = 0 ↔ _
    rw [Nat.and_one_is_mod]
  have hint : flags.toInt % 2 = 0 ↔ flags.toBitVec.toNat % 2 = 0 := by
    change flags.toBitVec.toInt % 2 = 0 ↔ _
    rw [BitVec.toInt_eq_toNat_cond]
    split <;> omega
  simp only [prefersExclude, bne_iff_ne, ne_eq, hint, hand]

/-- A path call is answered when its ends are known and its filters are readable. -/
theorem answer_path_ok {ends : Endpoints} {maxDegrees : Nat} {filter : PathFilter}
    {d : Document} : g.answer (.path ends maxDegrees filter) wording = .ok d ↔
      ∃ origin target rules, g.requireEnds ends = .ok (origin, target) ∧
        g.rules filter wording = .ok rules ∧ g.describePath origin target maxDegrees rules = d := by
  rw [answer, Except.bind_eq_ok]
  constructor
  · rintro ⟨⟨origin, target⟩, he, h⟩
    obtain ⟨rules, hr, h⟩ := Except.bind_eq_ok.mp h
    exact ⟨origin, target, rules, he, hr, Except.ok.inj h⟩
  · rintro ⟨origin, target, rules, he, hr, rfl⟩
    exact ⟨(origin, target), he, Except.bind_eq_ok.mpr ⟨rules, hr, rfl⟩⟩

end Graph

/-- The list of avoided entities and the flags, where a filter has them. -/
def PathFilter.exclusion? : PathFilter → Option (String × Int64)
  | .unfiltered => none
  | .excluding excluded flags => some (excluded, flags)
  | .includingSource excluded _ flags => some (excluded, flags)

/-- The list of required sources, where a filter has one. -/
def PathFilter.sources? : PathFilter → Option String
  | .includingSource _ sources _ => some sources
  | _ => none

namespace Graph

variable {g : Graph} {wording : Json.Wording}

/-- A text lists some entities, all of them known. -/
def ReadsList (g : Graph) (text : String) (ids : List Int64) : Prop :=
  ∃ list, IdentifierList.ofText? text = some list ∧ g.requireAll list = .ok ids

theorem avoidedBy_ok {excluded : String} {avoided : List Int64} :
    g.avoidedBy excluded wording = .ok avoided ↔ g.ReadsList excluded avoided := by
  rw [avoidedBy, Except.bind_eq_ok]
  simp only [argument_ok, ReadsList]

/-- The avoided entities are those that the text of the filter lists. -/
theorem rules_avoided {filter : PathFilter} {rules : PathRules} {excluded : String}
    {flags : Int64} (h : g.rules filter wording = .ok rules)
    (he : filter.exclusion? = some (excluded, flags)) :
    g.ReadsList excluded rules.avoided ∧ rules.prefer = prefersExclude flags := by
  cases filter with
  | unfiltered => cases he
  | excluding excluded flags =>
    cases he
    obtain ⟨avoided, ha, h⟩ := Except.bind_eq_ok.mp h
    cases h
    exact ⟨avoidedBy_ok.mp ha, rfl⟩
  | includingSource excluded sources flags =>
    cases he
    obtain ⟨avoided, ha, h⟩ := Except.bind_eq_ok.mp h
    obtain ⟨required, _, h⟩ := Except.bind_eq_ok.mp h
    cases h
    exact ⟨avoidedBy_ok.mp ha, rfl⟩

theorem rules_required {filter : PathFilter} {rules : PathRules} {text : String}
    (h : g.rules filter wording = .ok rules) (hs : filter.sources? = some text) :
    ∃ required, SourceList.ofText? text = some required ∧ rules.required = some required := by
  cases filter with
  | unfiltered => cases hs
  | excluding => cases hs
  | includingSource excluded sources flags =>
    cases hs
    obtain ⟨avoided, _, h⟩ := Except.bind_eq_ok.mp h
    obtain ⟨required, hr, h⟩ := Except.bind_eq_ok.mp h
    cases h
    exact ⟨required, argument_ok.mp hr, rfl⟩

theorem requireEntity_ok {id : Int64} (h : id ∈ g.fixture.ids) : g.requireEntity id = .ok id := by
  obtain ⟨e, he⟩ := Option.isSome_iff_exists.mp (g.entity?_isSome.mpr h)
  rw [requireEntity, he]

theorem requireEntity_known {id id' : Int64} (h : g.requireEntity id = .ok id') :
    id' ∈ g.fixture.ids := by
  unfold requireEntity at h
  split at h
  · rename_i e he
    cases h
    exact g.entity?_isSome.mp (by rw [he]; rfl)
  · cases h

theorem requireRecord_known {r : Record} {id : Int64} (h : g.requireRecord r = .ok id) :
    id ∈ g.fixture.ids := by
  unfold requireRecord at h
  split at h
  · rename_i id' hid
    cases h
    obtain ⟨e, he, rfl⟩ := Option.map_eq_some_iff.mp hid
    exact List.mem_map_of_mem (List.mem_of_find?_eq_some he)
  · cases h

theorem requireEnds_known {ends : Endpoints} {origin target : Int64}
    (h : g.requireEnds ends = .ok (origin, target)) :
    origin ∈ g.fixture.ids ∧ target ∈ g.fixture.ids := by
  cases ends with
  | records a b =>
    obtain ⟨origin, ho, h⟩ := Except.bind_eq_ok.mp h
    obtain ⟨target, ht, h⟩ := Except.bind_eq_ok.mp h
    cases h
    exact ⟨requireRecord_known ho, requireRecord_known ht⟩
  | entities a b =>
    obtain ⟨origin, ho, h⟩ := Except.bind_eq_ok.mp h
    obtain ⟨target, ht, h⟩ := Except.bind_eq_ok.mp h
    cases h
    exact ⟨requireEntity_known ho, requireEntity_known ht⟩

/-- A document lists the known ones among some entities. -/
theorem listed_eq_filter (g : Graph) (ids : List Int64) :
    (ids.filterMap g.documentEntity?).map (fun e => e.resolved.id) =
      ids.filter fun id => id ∈ g.fixture.ids := by
  induction ids with
  | nil => rfl
  | cons id rest ih =>
    by_cases hid : id ∈ g.fixture.ids
    · obtain ⟨e, he⟩ := Option.isSome_iff_exists.mp (g.entity?_isSome.mpr hid)
      have hshown : g.documentEntity? id =
          some ⟨⟨id, e.name, e.features, e.records⟩, g.relatedEntities id⟩ := by
        rw [documentEntity?, he, Option.map_some]
      rw [List.filterMap_cons_some hshown, List.map_cons, ih,
        List.filter_cons_of_pos (by simpa using hid)]
    · have hnone : g.entity? id = none := by
        rw [← Option.not_isSome_iff_eq_none, g.entity?_isSome]
        exact hid
      have hhidden : g.documentEntity? id = none := by rw [documentEntity?, hnone, Option.map_none]
      rw [List.filterMap_cons_none hhidden, ih, List.filter_cons_of_neg (by simpa using hid)]

theorem listed_known {ids : List Int64} (h : ∀ id ∈ ids, id ∈ g.fixture.ids) :
    (ids.filterMap g.documentEntity?).map (fun e => e.resolved.id) = ids := by
  rw [listed_eq_filter]
  apply List.filter_eq_self.mpr
  intro id hid
  exact decide_eq_true (h id hid)

end Graph

end Linkage
