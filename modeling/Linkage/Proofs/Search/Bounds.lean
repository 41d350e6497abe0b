import Linkage.Proofs.Search.Sources
import Mathlib.Data.List.Permutation

/-!
What the bound of a search does.

The levels of a search do not depend on its bound, which only says how many of them are looked at.
So nothing that happens beyond a lower bound can change a trail within it, whichever trail is kept
for a place and whatever that closes to others.
-/

namespace Linkage

namespace Quest

variable {q : Quest} {start : Int64} {bound bound' : Nat}

/-- A search stops at the one level that has a trail which is done, if its bound lets it get
there. -/
theorem path?_eq_filter (h : bound ≤ bound') :
    q.path? start bound = (q.path? start bound').filter fun ids => edges ids ≤ bound := by
  apply Option.ext
  intro ids
  rw [Option.filter_eq_some_iff, path?_eq_some, path?_eq_some, decide_eq_true_eq]
  constructor
  · rintro ⟨n, hn, t, ht, hdone, rfl⟩
    have hedges := edges_level ht
    exact ⟨⟨n, by omega, t, ht, hdone, rfl⟩, by omega⟩
  · rintro ⟨⟨n, _, t, ht, hdone, rfl⟩, hshort⟩
    have hedges := edges_level ht
    exact ⟨n, by omega, t, ht, hdone, rfl⟩

end Quest

namespace Graph

/-- **The bound only prunes.** Of two searches that differ in their bounds only, the one with the
lower bound finds the very path that the other one finds, if that has no more steps than the lower
bound allows, and otherwise none. -/
theorem bounds_only_prune (g : Graph) (start goal : Int64) {maxDegrees maxDegrees' : Nat}
    (avoided : List Int64) (required : Option (List String)) (h : maxDegrees ≤ maxDegrees') :
    g.shortestPath start goal maxDegrees avoided required =
      (g.shortestPath start goal maxDegrees' avoided required).filter
        fun path => edges path ≤ maxDegrees :=
  Quest.path?_eq_filter h

/-- From 3 to 5 through the watch list takes three steps. With four degrees that path is found, so
it is with three, and with two there is none. -/
theorem sharedPassage_pruned :
    3 ≤ 4 ∧ 2 ≤ 4 ∧
      sharedPassage.shortestPath 3 5 4 [] (some ["WATCHLIST"]) = some [3, 4, 2, 5] ∧
      sharedPassage.shortestPath 3 5 3 [] (some ["WATCHLIST"]) = some [3, 4, 2, 5] ∧
      sharedPassage.shortestPath 3 5 2 [] (some ["WATCHLIST"]) = none := by
  have hthree : 3 ≤ 4 := by decide
  have htwo : 2 ≤ 4 := by decide
  have hfound : sharedPassage.shortestPath 3 5 4 [] (some ["WATCHLIST"]) = some [3, 4, 2, 5] := by
    cbv
  refine ⟨hthree, htwo, hfound, ?_, ?_⟩
  · rw [bounds_only_prune sharedPassage 3 5 [] (some ["WATCHLIST"]) hthree, hfound]
    decide
  · rw [bounds_only_prune sharedPassage 3 5 [] (some ["WATCHLIST"]) htwo, hfound]
    decide

end Graph

end Linkage
