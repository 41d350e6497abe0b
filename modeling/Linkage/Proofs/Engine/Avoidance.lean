import Linkage.Proofs.Engine.Answers
import Linkage.Proofs.Search.Shortest

namespace Linkage

/-- An avoided entity stands between the two ends. -/
def Crosses (avoided ids : List Int64) : Prop := ∃ id ∈ interior ids, id ∈ avoided

theorem not_crosses {avoided ids : List Int64} :
    ¬ Crosses avoided ids ↔ ∀ id ∈ interior ids, id ∉ avoided := by
  simp only [Crosses, not_exists, not_and]

namespace Graph

/-- A path between two entities within a bound: it repeats no entity. -/
structure IsPath (g : Graph) (origin target : Int64) (maxDegrees : Nat) (ids : List Int64) :
    Prop where
  walk : g.IsWalk origin target ids
  simple : ids.Nodup
  bounded : edges ids ≤ maxDegrees

variable {g : Graph} {origin target : Int64} {maxDegrees : Nat} {avoided ids : List Int64}

theorem shortestPath_isPath {required : Option (List String)}
    (h : g.shortestPath origin target maxDegrees avoided required = some ids) :
    g.IsPath origin target maxDegrees ids ∧ ¬ Crosses avoided ids := by
  obtain ⟨hc, hsimple, _⟩ := shortestPath_sound h
  exact ⟨⟨hc.walk, hsimple, hc.bounded⟩, not_crosses.mpr hc.clear⟩

/-- A search without required sources fails when every path crosses. -/
theorem shortestPath_eq_none :
    g.shortestPath origin target maxDegrees avoided none = none ↔
      ∀ ids, g.IsPath origin target maxDegrees ids → Crosses avoided ids := by
  constructor
  · intro hnone ids hpath
    by_contra hclear
    have hc : g.Connects origin target maxDegrees avoided ids :=
      ⟨hpath.walk, hpath.bounded, not_crosses.mp hclear⟩
    obtain ⟨found, hfound, _⟩ := found_of_reached hc.bounded hc.reached
    cases hnone.symm.trans hfound
  · intro hall
    cases hfound : g.shortestPath origin target maxDegrees avoided none with
    | none => rfl
    | some ids =>
      obtain ⟨hpath, hclear⟩ := shortestPath_isPath hfound
      exact absurd (hall ids hpath) hclear

/-- No path crosses where nothing is avoided. -/
theorem plainPath_eq_none :
    g.shortestPath origin target maxDegrees [] none = none ↔
      ¬ ∃ ids, g.IsPath origin target maxDegrees ids := by
  rw [shortestPath_eq_none, not_exists]
  refine forall_congr' fun ids => imp_congr_right fun _ => iff_false_intro ?_
  exact not_crosses.mpr fun _ _ => List.not_mem_nil

theorem bestPath_hard (g : Graph) (origin target : Int64) (maxDegrees : Nat)
    (avoided : List Int64) (required : Option (List String)) :
    g.bestPath origin target maxDegrees avoided false required =
      g.shortestPath origin target maxDegrees avoided required := by
  unfold bestPath
  cases g.shortestPath origin target maxDegrees avoided required <;> simp

/-- Where nothing is avoided the second search would be the first again, so it makes no
difference that it is left out. -/
theorem bestPath_soft (g : Graph) (origin target : Int64) (maxDegrees : Nat)
    (avoided : List Int64) (required : Option (List String)) :
    g.bestPath origin target maxDegrees avoided true required =
      (g.shortestPath origin target maxDegrees avoided required).or
        (g.shortestPath origin target maxDegrees [] required) := by
  unfold bestPath
  cases hfirst : g.shortestPath origin target maxDegrees avoided required with
  | some path => rfl
  | none =>
    cases avoided with
    | nil => simp [hfirst]
    | cons id rest => simp

/-! ## Calls -/

/-- A call is answered, whatever the wording of faults, and its document has this one path. -/
def Reports (g : Graph) (call : Call) (path : EntityPath) : Prop :=
  ∀ wording, ∃ d, g.answer call wording = .ok d ∧ d.paths = [path]

theorem reports_path {ends : Endpoints} {filter : PathFilter} {rules : PathRules}
    (maxDegrees : Nat) (hends : g.requireEnds ends = .ok (origin, target))
    (hrules : ∀ wording, g.rules filter wording = .ok rules) :
    g.Reports (.path ends maxDegrees filter) ⟨origin, target,
      (g.bestPath origin target maxDegrees rules.avoided rules.prefer rules.required).getD []⟩ :=
  fun wording => ⟨_, answer_path_ok.mpr ⟨origin, target, rules, hends, hrules wording, rfl⟩, rfl⟩

theorem rules_excluding_eq (excluded : String) (flags : Int64) (wording : Json.Wording) :
    g.rules (.excluding excluded flags) wording =
      (g.avoidedBy excluded wording).map fun avoided => ⟨avoided, prefersExclude flags, none⟩ := by
  rw [rules]
  cases g.avoidedBy excluded wording <;> rfl

theorem rules_excluding {excluded : String} (flags : Int64) (h : g.ReadsList excluded avoided)
    (wording : Json.Wording) :
    g.rules (.excluding excluded flags) wording = .ok ⟨avoided, prefersExclude flags, none⟩ := by
  rw [rules_excluding_eq, avoidedBy_ok.mpr h]
  rfl

/-- An empty path stands for none: a path that is found has entities. -/
theorem getD_shortestPath_eq_nil {required : Option (List String)} :
    (g.shortestPath origin target maxDegrees avoided required).getD [] = [] ↔
      g.shortestPath origin target maxDegrees avoided required = none := by
  cases hfound : g.shortestPath origin target maxDegrees avoided required with
  | none => simp
  | some ids =>
    have hne : ids ≠ [] := (shortestPath_isPath hfound).1.walk.ne_nil
    simp [hne]

/-- **Forbidding and going around.** Take one path call with the same avoided entities, once with
the lowest bit of its flags clear and once with it set, and the call without any.

The second reports no path only when there is none within the bound, and one through an avoided
entity only when every path has one. The first reports none exactly when every path has one. What
the first reports, the second reports too; where it reports none, the second reports what the call
without avoided entities does. -/
theorem soft_exclusion_falls_back (g : Graph) (ends : Endpoints) (maxDegrees : Nat)
    (excluded : String) (hard soft : Int64) (origin target : Int64) (avoided : List Int64)
    (hends : g.requireEnds ends = .ok (origin, target))
    (havoided : g.ReadsList excluded avoided)
    (hhard : hard &&& Call.preferExclude = 0) (hsoft : soft &&& Call.preferExclude ≠ 0) :
    ∃ hardPath softPath plainPath : List Int64,
      g.Reports (.path ends maxDegrees (.excluding excluded hard)) ⟨origin, target, hardPath⟩ ∧
      g.Reports (.path ends maxDegrees (.excluding excluded soft)) ⟨origin, target, softPath⟩ ∧
      g.Reports (.path ends maxDegrees .unfiltered) ⟨origin, target, plainPath⟩ ∧
      (softPath = [] ↔ ¬ ∃ ids, g.IsPath origin target maxDegrees ids) ∧
      (Crosses avoided softPath →
        ∀ ids, g.IsPath origin target maxDegrees ids → Crosses avoided ids) ∧
      (hardPath = [] ↔ ∀ ids, g.IsPath origin target maxDegrees ids → Crosses avoided ids) ∧
      (hardPath ≠ [] → softPath = hardPath) ∧
      (hardPath = [] → softPath = plainPath) := by
  have hclear : prefersExclude hard = false := by
    rw [← Bool.not_eq_true, prefersExclude_iff, not_not]
    exact hhard
  have hset : prefersExclude soft = true := prefersExclude_iff.mpr hsoft
  have hardReport := reports_path maxDegrees hends (rules_excluding hard havoided)
  have softReport := reports_path maxDegrees hends (rules_excluding soft havoided)
  have plainReport : g.Reports (.path ends maxDegrees .unfiltered) _ :=
    reports_path maxDegrees hends fun _ => rfl
  simp only [hclear, hset, bestPath_hard, bestPath_soft] at hardReport softReport plainReport
  refine ⟨_, _, _, hardReport, softReport, plainReport, ?_⟩
  cases hfirst : g.shortestPath origin target maxDegrees avoided none with
  | none =>
    have hall := shortestPath_eq_none.mp hfirst
    rw [Option.none_or]
    refine ⟨?_, fun _ => hall, iff_of_true rfl hall, fun hne => absurd rfl hne, fun _ => rfl⟩
    exact getD_shortestPath_eq_nil.trans plainPath_eq_none
  | some path =>
    obtain ⟨hpath, hclear⟩ := shortestPath_isPath hfirst
    have hne : path ≠ [] := hpath.walk.ne_nil
    rw [Option.some_or, Option.getD_some]
    refine ⟨?_, fun hc => absurd hc hclear, ?_, fun _ => rfl, fun hnil => absurd hnil hne⟩
    · exact iff_of_false hne (not_not_intro ⟨path, hpath⟩)
    · exact iff_of_false hne fun hall => hclear (hall path hpath)

/-- Five entities in a pentagon. -/
def pentagon : Graph where
  fixture :=
    { sources := []
      entities := [⟨1, none, [], .empty⟩, ⟨2, none, [], .empty⟩, ⟨3, none, [], .empty⟩,
        ⟨4, none, [], .empty⟩, ⟨5, none, [], .empty⟩]
      relationships := [⟨1, 2, 0, none, false, false⟩, ⟨2, 3, 0, none, false, false⟩,
        ⟨3, 4, 0, none, false, false⟩, ⟨4, 5, 0, none, false, false⟩,
        ⟨5, 1, 0, none, false, false⟩] }
  accepted := by decide +kernel

def withoutTwo : String := "\x7b\"ENTITIES\":[\x7b\"ENTITY_ID\":2\x7d]\x7d"

/-- Two steps from 1 to 3 lead through 2, and the way around is one step too long. -/
theorem pentagon_falls_back :
    pentagon.requireEnds (.entities 1 3) = .ok (1, 3) ∧ pentagon.ReadsList withoutTwo [2] ∧
      (0 : Int64) &&& Call.preferExclude = 0 ∧ (1 : Int64) &&& Call.preferExclude ≠ 0 ∧
      ∃ hardPath softPath plainPath : List Int64,
        pentagon.Reports (.path (.entities 1 3) 2 (.excluding withoutTwo 0)) ⟨1, 3, hardPath⟩ ∧
        pentagon.Reports (.path (.entities 1 3) 2 (.excluding withoutTwo 1)) ⟨1, 3, softPath⟩ ∧
        pentagon.Reports (.path (.entities 1 3) 2 .unfiltered) ⟨1, 3, plainPath⟩ ∧
        (softPath = [] ↔ ¬ ∃ ids, pentagon.IsPath 1 3 2 ids) ∧
        (Crosses [2] softPath → ∀ ids, pentagon.IsPath 1 3 2 ids → Crosses [2] ids) ∧
        (hardPath = [] ↔ ∀ ids, pentagon.IsPath 1 3 2 ids → Crosses [2] ids) ∧
        (hardPath ≠ [] → softPath = hardPath) ∧
        (hardPath = [] → softPath = plainPath) := by
  have hends : pentagon.requireEnds (.entities 1 3) = .ok (1, 3) := rfl
  have havoided : pentagon.ReadsList withoutTwo [2] := ⟨⟨[2], []⟩, by decide +kernel, rfl⟩
  have hhard : (0 : Int64) &&& Call.preferExclude = 0 := by decide
  have hsoft : (1 : Int64) &&& Call.preferExclude ≠ 0 := by decide
  exact ⟨hends, havoided, hhard, hsoft,
    soft_exclusion_falls_back pentagon _ 2 _ 0 1 1 3 [2] hends havoided hhard hsoft⟩

end Graph

end Linkage
