import Linkage.Proofs.Engine.Answers
import Linkage.Proofs.Search.Sources

namespace Linkage.Graph

/-- A simple path between the two ends, within the bound, that has a required source if the call
names some, and is clear of the avoided entities if the call forbids them. -/
structure KeepsRules (g : Graph) (origin target : Int64) (maxDegrees : Nat) (filter : PathFilter)
    (ids : List Int64) : Prop where
  walk : g.IsWalk origin target ids
  simple : ids.Nodup
  bounded : edges ids ≤ maxDegrees
  source : ∀ text, filter.sources? = some text →
    ∃ required, SourceList.ofText? text = some required ∧
      ∃ id ∈ ids, g.holdsSource required id = true
  clear : ∀ excluded flags, filter.exclusion? = some (excluded, flags) →
    flags &&& Call.preferExclude = 0 →
    ∃ avoided, g.ReadsList excluded avoided ∧ ∀ id ∈ interior ids, id ∉ avoided

variable {g : Graph} {origin target : Int64} {maxDegrees : Nat} {ids : List Int64}

/-- A path comes from a search, and from the one with all avoided entities unless they are only to
be avoided where possible. -/
theorem bestPath_sound {avoided : List Int64} {prefer : Bool} {required : Option (List String)}
    (h : g.bestPath origin target maxDegrees avoided prefer required = some ids) :
    ∃ avoided', g.shortestPath origin target maxDegrees avoided' required = some ids ∧
      (prefer = false → avoided' = avoided) := by
  unfold bestPath at h
  split at h
  · rename_i path hp
    exact ⟨avoided, hp.trans h, fun _ => rfl⟩
  · split at h
    · cases h
    · rename_i hretry
      exact ⟨[], h, fun hp => by simp [hp] at hretry⟩

theorem bestPath_keepsRules {filter : PathFilter} {wording : Json.Wording} {rules : PathRules}
    (hr : g.rules filter wording = .ok rules)
    (h : g.bestPath origin target maxDegrees rules.avoided rules.prefer rules.required = some ids) :
    g.KeepsRules origin target maxDegrees filter ids := by
  obtain ⟨avoided, hs, hsame⟩ := bestPath_sound h
  obtain ⟨hc, hsimple, hsource⟩ := shortestPath_sound hs
  refine ⟨hc.walk, hsimple, hc.bounded, ?_, ?_⟩
  · intro text ht
    obtain ⟨required, htext, hreq⟩ := rules_required hr ht
    exact ⟨required, htext, hsource required hreq⟩
  · intro excluded flags he hbit
    obtain ⟨ha, hp⟩ := rules_avoided hr he
    have hforbid : rules.prefer = false := by
      rw [hp, ← Bool.not_eq_true, prefersExclude_iff, not_not]
      exact hbit
    exact ⟨rules.avoided, ha, hsame hforbid ▸ hc.clear⟩

/-- **Every reported path is one.** A path call that succeeds writes a document with one path
between the ends of the call, and that path is empty or keeps every rule of the call. -/
theorem written_path_keeps_rules (g : Graph) (s after : Session) (ends : Endpoints)
    (maxDegrees : Nat) (filter : PathFilter) (wording : Json.Wording)
    (h : s.call g (.path ends maxDegrees filter) wording = (0, after)) :
    ∃ (d : Document) (origin target : Int64) (ids : List Int64),
      after.buffer = d.text ∧ d.paths = [⟨origin, target, ids⟩] ∧
      g.requireEnds ends = .ok (origin, target) ∧
      (ids = [] ∨ g.KeepsRules origin target maxDegrees filter ids) := by
  obtain ⟨d, hd, rfl⟩ := Session.call_ok.mp h
  obtain ⟨origin, target, rules, hends, hrules, rfl⟩ := answer_path_ok.mp hd
  refine ⟨_, origin, target, _, rfl, rfl, hends, ?_⟩
  cases hbest : g.bestPath origin target maxDegrees rules.avoided rules.prefer rules.required with
  | none => exact .inl rfl
  | some ids => exact .inr (bestPath_keepsRules hrules hbest)

/-- Entity 2 is never to be entered, and some entity must be on the watch list. -/
def aroundTwo : PathFilter :=
  .includingSource "\x7b\"ENTITIES\":[\x7b\"ENTITY_ID\":2\x7d]\x7d"
    "\x7b\"DATA_SOURCES\":[\"WATCHLIST\"]\x7d" 0

theorem written_path_around_two :
    ∃ after, Session.call sharedPassage ⟨"stale", none⟩ (.path (.entities 1 4) 2 aroundTwo)
        .plain = (0, after) ∧
      ∃ (d : Document) (origin target : Int64) (ids : List Int64),
        after.buffer = d.text ∧ d.paths = [⟨origin, target, ids⟩] ∧
        sharedPassage.requireEnds (.entities 1 4) = .ok (origin, target) ∧
        (ids = [] ∨ sharedPassage.KeepsRules origin target 2 aroundTwo ids) := by
  have hrules : sharedPassage.rules aroundTwo .plain = .ok ⟨[2], false, some ["WATCHLIST"]⟩ := rfl
  have hends : sharedPassage.requireEnds (.entities 1 4) = .ok (1, 4) := rfl
  obtain ⟨d, hd⟩ :
      ∃ d, sharedPassage.answer (.path (.entities 1 4) 2 aroundTwo) .plain = .ok d :=
    ⟨_, answer_path_ok.mpr ⟨1, 4, _, hends, hrules, rfl⟩⟩
  have hcall : Session.call sharedPassage ⟨"stale", none⟩ (.path (.entities 1 4) 2 aroundTwo)
      .plain = (0, ⟨d.text, none⟩) := Session.call_ok.mpr ⟨d, hd, rfl⟩
  exact ⟨_, hcall, written_path_keeps_rules sharedPassage ⟨"stale", none⟩ _ _ _ _ .plain hcall⟩

end Linkage.Graph
