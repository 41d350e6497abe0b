import Linkage.Document
import Linkage.Graph.Search

namespace Linkage

/-- Adds the entities of a list that are not yet included, in order. -/
def includeAll (included : List Int64) (ids : List Int64) : List Int64 :=
  ids.foldl (fun included id => if id ∈ included then included else included ++ [id]) included

/-- What a build-out has come to: all entities included, those that are new in this round, and
whether it stopped at the limit. -/
structure Growth where
  included : List Int64
  fresh : List Int64
  limitReached : Bool
  deriving DecidableEq, Repr

/-- Includes candidates one after another, until one is left over because of the limit. -/
def Growth.absorb (limit : Nat) (g : Growth) : List Int64 → Growth
  | [] => g
  | id :: rest =>
    if id ∈ g.included then absorb limit g rest
    else if limit ≤ g.included.length then { g with limitReached := true }
    else absorb limit { g with included := g.included ++ [id], fresh := g.fresh ++ [id] } rest

/-- Includes the entities next to the latest ones, for a number of rounds. -/
def buildOut (next : Int64 → List Int64) (limit : Nat) :
    Nat → List Int64 → List Int64 → List Int64 × Bool
  | 0, included, _ => (included, false)
  | rounds + 1, included, latest =>
    let g := Growth.absorb limit ⟨included, [], false⟩ (latest.flatMap next)
    if g.limitReached then (g.included, true)
    else if g.fresh.isEmpty then (g.included, false)
    else buildOut next limit rounds g.included g.fresh

/-- Each member with each later one. -/
def pairs : List Int64 → List (Int64 × Int64)
  | [] => []
  | id :: rest => rest.map (fun other => (id, other)) ++ pairs rest

/-- A network: the paths between its members, its entities, and whether the limit was reached. -/
structure Network where
  paths : List EntityPath
  entities : List Int64
  limitReached : Bool
  deriving DecidableEq, Repr

namespace Graph

/-- The path from one member to another; without entities when there is none. -/
def memberPath (g : Graph) (maxDegrees : Nat) (ends : Int64 × Int64) : EntityPath :=
  ⟨ends.1, ends.2, (g.shortestPath ends.1 ends.2 maxDegrees [] none).getD []⟩

def pairPaths (g : Graph) (maxDegrees : Nat) (members : List Int64) : List EntityPath :=
  (pairs members).map (g.memberPath maxDegrees)

/-- The members and the entities on the paths between them. -/
def base (members : List Int64) (paths : List EntityPath) : List Int64 :=
  includeAll members (paths.flatMap EntityPath.entities)

/-- The network around some entities. A limit below the size of its base does not shrink that. -/
def network (g : Graph) (members : List Int64) (maxDegrees rounds limit : Nat) : Network :=
  let members := includeAll [] members
  let paths := g.pairPaths maxDegrees members
  let core := base members paths
  let (entities, limitReached) := buildOut g.neighbours limit rounds core core
  ⟨paths, entities, limitReached⟩

end Graph

end Linkage
