import Linkage.Proofs.Network.Content
import Mathlib.Data.List.Permutation

/-!
What the limits of a network do.

A run with lower limits goes as one with higher limits does, and stops earlier. A build-out goes
outwards, so what the lower limits leave out is no nearer than what they keep.

* `describeNetwork_fits_iff`: a network keeps to its limit exactly when its base does.
* `Growth.absorb_isPrefix`, `buildOut_isPrefix`: the run with lower limits, against the other.
* `Graph.NoFurther`, `buildOut_outwards`: the order in which entities are taken in.
-/

namespace Linkage

/-! ## The base and the limit -/

theorem Document.length_ids (d : Document) : d.ids.length = d.entities.length :=
  List.length_map _

namespace Graph

variable {g : Graph} {members : List Int64} {maxDegrees rounds limit : Nat}

/-- **When a network keeps to its limit.** Around known members a document lists at most `limit`
entities exactly when the members and the paths between them have no more than that. -/
theorem describeNetwork_fits_iff (g : Graph) (members : List Int64)
    (maxDegrees rounds limit : Nat) (h : ∀ id ∈ members, id ∈ g.fixture.ids) :
    (g.describeNetwork members maxDegrees rounds limit).entities.length ≤ limit ↔
      ((g.describeNetwork members maxDegrees rounds limit).around members).ncard ≤ limit := by
  have hcore := g.core_nodup members maxDegrees
  have hg := g.network_gathered members maxDegrees rounds limit
  have hholds := hcore.length_le_of_subset hg.holds
  have hbounded := hg.bounded
  rw [← Document.length_ids, describeNetwork_ids h, describeNetwork_around, ncard_list hcore]
  omega

/-- Around 3 the limit leaves out 1 and 5. -/
theorem line_keeps_limit :
    (∀ id ∈ [3], id ∈ line.fixture.ids) ∧ (line.describeNetwork [3] 1 2 3).ids = [3, 2, 4] ∧
      ((line.describeNetwork [3] 1 2 3).entities.length ≤ 3 ↔
        ((line.describeNetwork [3] 1 2 3).around [3]).ncard ≤ 3) := by
  have hknown : ∀ id ∈ [3], id ∈ line.fixture.ids := by
    rw [List.forall_mem_singleton]
    decide +kernel
  exact ⟨hknown, by cbv, describeNetwork_fits_iff line [3] 1 2 3 hknown⟩

/-- The way from 1 to 5 leads through all five entities: the document lists them although it is to
list at most two, and says that no limit was reached. -/
theorem line_exceeds_limit :
    ([1, 5] : List Int64) ≠ [] ∧ (∀ id ∈ [1, 5], id ∈ line.fixture.ids) ∧ (1 : Nat) ≤ 2 ∧
      (line.describeNetwork [1, 5] 4 1 2).ids = [1, 5, 2, 3, 4] ∧
      (line.describeNetwork [1, 5] 4 1 2).limitReached = some false ∧
      ¬ (line.describeNetwork [1, 5] 4 1 2).entities.length ≤ 2 := by
  have hids : (line.describeNetwork [1, 5] 4 1 2).ids = [1, 5, 2, 3, 4] := by cbv
  have hlength : (line.describeNetwork [1, 5] 4 1 2).entities.length = 5 := by
    rw [← Document.length_ids, hids]
    rfl
  refine ⟨by decide, ?_, by decide, hids, by cbv, by omega⟩
  simp only [List.forall_mem_cons, List.not_mem_nil, false_implies, implies_true, and_true]
  decide +kernel

end Graph

/-! ## Lower limits -/

namespace Growth

variable {limit limit' : Nat} {g : Growth}

/-- What is included stays so. -/
theorem included_isPrefix_absorb (limit : Nat) (g : Growth) (ids : List Int64) :
    g.included <+: (g.absorb limit ids).included := by
  obtain ⟨new, hinc, _⟩ := (absorb_absorbed limit g ids).added
  exact ⟨new, hinc.symm⟩

/-- With a lower limit the same candidates are included, and fewer of them. -/
theorem absorb_isPrefix (hlimit : limit ≤ limit') (g : Growth) (ids : List Int64) :
    (g.absorb limit ids).included <+: (g.absorb limit' ids).included := by
  induction ids generalizing g with
  | nil => exact List.prefix_refl _
  | cons first rest ih =>
    by_cases hin : first ∈ g.included
    · simp only [absorb, if_pos hin]
      exact ih g
    · by_cases hstop : limit ≤ g.included.length
      · have hcut : g.absorb limit (first :: rest) = { g with limitReached := true } := by
          simp only [absorb, if_neg hin, if_pos hstop]
        rw [hcut]
        exact included_isPrefix_absorb limit' g (first :: rest)
      · have hroom : ¬ limit' ≤ g.included.length := by omega
        simp only [absorb, if_neg hin, if_neg hstop, if_neg hroom]
        exact ih _

/-- A limit that is not reached could as well be higher. -/
theorem absorb_eq_of_room (hlimit : limit ≤ limit') (g : Growth) (ids : List Int64)
    (hgo : (g.absorb limit ids).limitReached = false) :
    g.absorb limit' ids = g.absorb limit ids := by
  induction ids generalizing g with
  | nil => rfl
  | cons first rest ih =>
    unfold absorb at hgo ⊢
    by_cases hin : first ∈ g.included
    · simp only [if_pos hin] at hgo ⊢
      exact ih g hgo
    · by_cases hstop : limit ≤ g.included.length
      · simp [hin, hstop] at hgo
      · have hroom : ¬ limit' ≤ g.included.length := by omega
        simp only [if_neg hin, if_neg hstop, if_neg hroom] at hgo ⊢
        exact ih _ hgo

end Growth

section BuildOut

variable {next : Int64 → List Int64} {limit limit' rounds rounds' : Nat}
  {included latest : List Int64}

/-- Nothing is ever taken out. -/
theorem included_isPrefix_buildOut (next : Int64 → List Int64) (limit rounds : Nat)
    (included latest : List Int64) :
    included <+: (buildOut next limit rounds included latest).1 := by
  induction rounds generalizing included latest with
  | zero => exact List.prefix_refl _
  | succ rounds ih =>
    have hround := Growth.included_isPrefix_absorb limit ⟨included, [], false⟩ (latest.flatMap next)
    simp only [buildOut]
    split
    · exact hround
    · split
      · exact hround
      · exact hround.trans (ih _ _)

/-- What a first round includes stays so in the rounds after it. -/
theorem absorb_isPrefix_buildOut (next : Int64 → List Int64) (limit rounds : Nat)
    (included latest : List Int64) :
    (Growth.absorb limit ⟨included, [], false⟩ (latest.flatMap next)).included <+:
      (buildOut next limit (rounds + 1) included latest).1 := by
  simp only [buildOut]
  split
  · exact List.prefix_refl _
  · split
    · exact List.prefix_refl _
    · exact included_isPrefix_buildOut next limit rounds _ _

/-- The two runs go alike until the one with the lower limits stops. -/
theorem buildOut_isPrefix (hrounds : rounds ≤ rounds') (hlimit : limit ≤ limit')
    (included latest : List Int64) :
    (buildOut next limit rounds included latest).1 <+:
      (buildOut next limit' rounds' included latest).1 := by
  induction rounds generalizing rounds' included latest with
  | zero => exact included_isPrefix_buildOut next limit' rounds' included latest
  | succ rounds ih =>
    obtain ⟨more, rfl⟩ : ∃ more, rounds' = more + 1 := ⟨rounds' - 1, by omega⟩
    have hmore : rounds ≤ more := by omega
    cases hstop :
        (Growth.absorb limit ⟨included, [], false⟩ (latest.flatMap next)).limitReached with
    | true =>
      have hcut : (buildOut next limit (rounds + 1) included latest).1 =
          (Growth.absorb limit ⟨included, [], false⟩ (latest.flatMap next)).included := by
        simp only [buildOut, hstop, if_true]
      rw [hcut]
      exact (Growth.absorb_isPrefix hlimit _ _).trans
        (absorb_isPrefix_buildOut next limit' more included latest)
    | false =>
      have hsame := Growth.absorb_eq_of_room hlimit _ _ hstop
      simp only [buildOut, hsame, hstop, Bool.false_eq_true, if_false]
      split
      · exact List.prefix_refl _
      · exact ih hmore _ _

end BuildOut

/-! ## Outwards -/

namespace Graph

variable {g : Graph} {base : Set Int64} {core included latest new : List Int64}
  {members : List Int64} {maxDegrees rounds rounds' limit limit' n : Nat}

/-- An entity is at most as far from a base as another one: whatever number of steps leads to the
other one leads to it. -/
def NoFurther (g : Graph) (base : Set Int64) (a b : Int64) : Prop :=
  ∀ n, b ∈ g.vicinity base n → a ∈ g.vicinity base n

/-- No entity of a list comes before one that is nearer to a base. -/
def Outwards (g : Graph) (base : Set Int64) (ids : List Int64) : Prop :=
  ids.Pairwise (g.NoFurther base)

/-- Entities within `n` steps are no further than one that is not within fewer steps. -/
theorem noFurther_of_mem {a b : Int64} (ha : a ∈ g.vicinity base n)
    (hb : ∀ m < n, b ∉ g.vicinity base m) : g.NoFurther base a b := by
  intro m hm
  have hle : n ≤ m := Nat.le_of_not_lt fun hlt => hb m hlt hm
  exact vicinity_mono hle ha

theorem outwards_base {ids : List Int64} (h : ∀ id ∈ ids, id ∈ base) : g.Outwards base ids := by
  apply List.pairwise_of_forall_mem_list
  intro a ha b _
  exact noFurther_of_mem (base_subset_vicinity 0 (h a ha))
    (fun m hm => absurd hm (Nat.not_lt_zero m))

/-- The entities of the next round are listed after all nearer ones. -/
theorem Outwards.append (h : g.Outwards base included)
    (hnear : ∀ id ∈ included, id ∈ g.vicinity base n)
    (hnext : ∀ id ∈ new, id ∈ g.vicinity base (n + 1))
    (hfresh : ∀ id ∈ new, id ∉ g.vicinity base n) : g.Outwards base (included ++ new) := by
  have hfar : ∀ b ∈ new, ∀ m < n + 1, b ∉ g.vicinity base m := by
    intro b hb m hm hin
    exact hfresh b hb (vicinity_mono (Nat.le_of_lt_succ hm) hin)
  apply List.pairwise_append.mpr
  refine ⟨h, ?_, ?_⟩
  · apply List.pairwise_of_forall_mem_list
    intro a ha b hb
    exact noFurther_of_mem (hnext a ha) (hfar b hb)
  · intro a ha b hb
    exact noFurther_of_mem (vicinity_mono (Nat.le_succ n) (hnear a ha)) (hfar b hb)

theorem Surveyed.outwards {after : Growth} (h : g.Surveyed core limit n included latest)
    (hout : g.Outwards {id | id ∈ core} included)
    (ha : Growth.Absorbed limit (latest.flatMap g.neighbours) ⟨included, [], false⟩ after) :
    g.Outwards {id | id ∈ core} after.included := by
  obtain ⟨new, hinc, _, hnew⟩ := ha.added
  have hnodup : (included ++ new).Nodup := hinc ▸ ha.nodup h.nodup
  rw [hinc]
  apply hout.append
  · intro id hid
    exact (h.mem id).mp hid
  · intro id hid
    exact h.candidate_near (hnew id hid)
  · intro id hid hnear
    have hold : id ∈ included := (h.mem id).mpr hnear
    exact List.disjoint_of_nodup_append hnodup hold hid

/-- A build-out takes entities in by their distance from the base. -/
theorem buildOut_outwards (h : g.Surveyed core limit n included latest)
    (hout : g.Outwards {id | id ∈ core} included) (rounds : Nat) :
    g.Outwards {id | id ∈ core} (buildOut g.neighbours limit rounds included latest).1 := by
  induction rounds generalizing n included latest with
  | zero => exact hout
  | succ rounds ih =>
    have ha := Growth.absorb_absorbed limit ⟨included, [], false⟩ (latest.flatMap g.neighbours)
    have hafter := h.outwards hout ha
    simp only [buildOut]
    split
    · exact hafter
    · rename_i hgo
      split
      · exact hafter
      · exact ih (h.round ha (by simpa using hgo)) hafter

theorem network_outwards (g : Graph) (members : List Int64) (maxDegrees rounds limit : Nat) :
    g.Outwards {id | id ∈ g.core members maxDegrees}
      (g.network members maxDegrees rounds limit).entities := by
  apply buildOut_outwards (surveyed_core g limit (g.core_nodup members maxDegrees))
  exact outwards_base fun id hid => hid

theorem network_isPrefix (g : Graph) (members : List Int64) (maxDegrees : Nat)
    (hrounds : rounds ≤ rounds') (hlimit : limit ≤ limit') :
    (g.network members maxDegrees rounds limit).entities <+:
      (g.network members maxDegrees rounds' limit').entities :=
  buildOut_isPrefix hrounds hlimit _ _

/-- An entity that is left out is no nearer than one that is included. The two are compared in a
network that goes on until it includes both. -/
theorem network_keeps_nearest (g : Graph) (members : List Int64) (maxDegrees rounds limit : Nat)
    {a b : Int64} (ha : a ∈ (g.network members maxDegrees rounds limit).entities)
    (hb : b ∉ (g.network members maxDegrees rounds limit).entities) :
    g.NoFurther {id | id ∈ g.core members maxDegrees} a b := by
  intro n hn
  let more := rounds + n
  let enough := max limit (g.vicinity {id | id ∈ g.core members maxDegrees} more).ncard
  have hg := g.network_gathered members maxDegrees more enough
  have hgo : (g.network members maxDegrees more enough).limitReached = false := by
    have hlimited := hg.limited (g.core_nodup members maxDegrees)
    rw [← Bool.not_eq_true, hlimited]
    omega
  have hin : b ∈ (g.network members maxDegrees more enough).entities :=
    hg.all hgo b (vicinity_mono (Nat.le_add_left n rounds) hn)
  have hout := g.network_outwards members maxDegrees more enough
  have hrounds : rounds ≤ more := Nat.le_add_right rounds n
  have hlimit : limit ≤ enough := Nat.le_max_left limit _
  obtain ⟨rest, hrest⟩ := g.network_isPrefix members maxDegrees hrounds hlimit
  rw [← hrest] at hin hout
  have hlast : b ∈ rest := (List.mem_append.mp hin).resolve_left hb
  exact (List.pairwise_append.mp hout).2.2 a ha b hlast n hn

/-! ## Two documents -/

/-- One document has the paths of another one and the beginning of its entities. Both go outwards
from a base, and what the first leaves out is no nearer to it than what it lists. -/
structure CutsTail (g : Graph) (base : Set Int64) (short long : Document) : Prop where
  paths : short.paths = long.paths
  entities : short.entities <+: long.entities
  short_outwards : g.Outwards base short.ids
  long_outwards : g.Outwards base long.ids
  nearest : ∀ a ∈ short.ids, ∀ b ∈ g.fixture.ids, b ∉ short.ids → g.NoFurther base a b

theorem describeNetwork_ids_eq_filter (g : Graph) (members : List Int64)
    (maxDegrees rounds limit : Nat) :
    (g.describeNetwork members maxDegrees rounds limit).ids =
      (g.network members maxDegrees rounds limit).entities.filter fun id => id ∈ g.fixture.ids :=
  g.listed_eq_filter _

theorem describeNetwork_outwards (g : Graph) (members : List Int64)
    (maxDegrees rounds limit : Nat) :
    g.Outwards {id | id ∈ g.core members maxDegrees}
      (g.describeNetwork members maxDegrees rounds limit).ids := by
  rw [describeNetwork_ids_eq_filter]
  exact (g.network_outwards members maxDegrees rounds limit).sublist List.filter_sublist

/-- **Limits cut off the end of a network.** Of two documents around the same members, the one with
fewer rounds and a lower limit has the same paths and the beginning of the other one's entities. In
both no entity comes before one that takes fewer steps from the members and the paths between them,
so those that are left out are no nearer than those that are listed. -/
theorem limits_cut_tail (g : Graph) (members : List Int64) (maxDegrees : Nat)
    {rounds rounds' limit limit' : Nat} (hrounds : rounds ≤ rounds') (hlimit : limit ≤ limit') :
    g.CutsTail ((g.describeNetwork members maxDegrees rounds limit).around members)
      (g.describeNetwork members maxDegrees rounds limit)
      (g.describeNetwork members maxDegrees rounds' limit') := by
  rw [describeNetwork_around]
  constructor
  case paths => rfl
  case entities => exact (g.network_isPrefix members maxDegrees hrounds hlimit).filterMap _
  case short_outwards => exact g.describeNetwork_outwards members maxDegrees rounds limit
  case long_outwards => exact g.describeNetwork_outwards members maxDegrees rounds' limit'
  case nearest =>
    intro a ha b hknown hb
    rw [describeNetwork_ids_eq_filter] at ha hb
    have hin := List.mem_of_mem_filter ha
    have hout : b ∉ (g.network members maxDegrees rounds limit).entities := by
      intro hmem
      exact hb (List.mem_filter.mpr ⟨hmem, decide_eq_true hknown⟩)
    exact g.network_keeps_nearest members maxDegrees rounds limit hin hout

/-- Around 2 a limit of two leaves out 3, which is as near as 1. Another round and a higher limit
add it, and 4 after it. -/
theorem line_cuts_tail :
    1 ≤ 2 ∧ 2 ≤ 5 ∧ (line.describeNetwork [2] 1 1 2).ids = [2, 1] ∧
      (line.describeNetwork [2] 1 2 5).ids = [2, 1, 3, 4] ∧
      line.CutsTail ((line.describeNetwork [2] 1 1 2).around [2])
        (line.describeNetwork [2] 1 1 2) (line.describeNetwork [2] 1 2 5) := by
  have hrounds : 1 ≤ 2 := by decide
  have hlimit : 2 ≤ 5 := by decide
  exact ⟨hrounds, hlimit, by cbv, by cbv, limits_cut_tail line [2] 1 hrounds hlimit⟩

end Graph

end Linkage
