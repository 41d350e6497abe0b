import Linkage.Graph

/-!
Shortest paths, level by level.

A search goes through places: an entity, and whether the trail to it has met a required source.
Each place is reached once, by the first trail to get there, and no trail comes back to an entity
that is on it.
-/

namespace Linkage

/-- An entity, and whether the requirement has been met on the way to it. -/
abbrev Place := Int64 × Bool

/-- The places from the start of a search to the one reached. -/
structure Trail where
  here : Place
  /-- The places before, latest first. -/
  before : List Place
  deriving DecidableEq, Repr

namespace Trail

def entities (t : Trail) : List Int64 := ((t.here :: t.before).map (·.1)).reverse

def visits (t : Trail) (id : Int64) : Bool := (t.here :: t.before).any fun p => p.1 == id

def goTo (t : Trail) (p : Place) : Trail := ⟨p, t.here :: t.before⟩

end Trail

/-- What a search looks for: steps between entities, a goal, entities not to be entered on the
way, and the entities that meet the requirement. -/
structure Quest where
  next : Int64 → List Int64
  goal : Int64
  avoided : List Int64
  meets : Int64 → Bool

namespace Quest

def start (q : Quest) (id : Int64) : Place := (id, q.meets id)

def step (q : Quest) (p : Place) (id : Int64) : Place := (id, p.2 || q.meets id)

/-- A step that is not taken: to an avoided entity other than the goal, to one on the trail, or to
a place that was reached before. -/
def isClosed (q : Quest) (reached : List Place) (t : Trail) (id : Int64) : Bool :=
  (id != q.goal && q.avoided.contains id) || t.visits id || reached.contains (q.step t.here id)

/-- Takes the steps of a trail one after another: what is reached then, and the longer trails. -/
def extend (q : Quest) (t : Trail) (reached : List Place) : List Int64 → List Place × List Trail
  | [] => (reached, [])
  | id :: rest =>
    if q.isClosed reached t id then extend q t reached rest
    else
      let place := q.step t.here id
      let (reached, more) := extend q t (place :: reached) rest
      (reached, t.goTo place :: more)

/-- The next level: all trails of a level are extended in order. -/
def advance (q : Quest) (reached : List Place) : List Trail → List Place × List Trail
  | [] => (reached, [])
  | t :: rest =>
    let (reached, longer) := extend q t reached (q.next t.here.1)
    let (reached, more) := advance q reached rest
    (reached, longer ++ more)

/-- A trail has reached the goal with the requirement met. -/
def isDone (q : Quest) (t : Trail) : Bool := t.here == (q.goal, true)

/-- The first trail that is done, among those of a level and of at most `bound` levels after it. -/
def search (q : Quest) : Nat → List Place → List Trail → Option Trail
  | 0, _, level => level.find? q.isDone
  | bound + 1, reached, level =>
    match level.find? q.isDone with
    | some t => some t
    | none =>
      let (reached, level) := q.advance reached level
      if level.isEmpty then none else search q bound reached level

/-- The entities of the trail that is found from a start, in at most `bound` steps. -/
def path? (q : Quest) (start : Int64) (bound : Nat) : Option (List Int64) :=
  let origin := q.start start
  (q.search bound [origin] [⟨origin, []⟩]).map Trail.entities

end Quest

namespace Graph

/-- The search for a path to a goal. Without required sources nothing has to be met. -/
def quest (g : Graph) (goal : Int64) (avoided : List Int64) (required : Option (List String)) :
    Quest where
  next := g.neighbours
  goal := goal
  avoided := avoided
  meets := match required with
    | some sources => g.holdsSource sources
    | none => fun _ => true

/-- A path of at most `maxDegrees` steps that enters no avoided entity, except at its ends, and
has an entity with a record from a required source. -/
def shortestPath (g : Graph) (start goal : Int64) (maxDegrees : Nat) (avoided : List Int64)
    (required : Option (List String)) : Option (List Int64) :=
  (g.quest goal avoided required).path? start maxDegrees

/-- With `prefer`, a path through avoided entities where there is none without them. -/
def bestPath (g : Graph) (start goal : Int64) (maxDegrees : Nat) (avoided : List Int64)
    (prefer : Bool) (required : Option (List String)) : Option (List Int64) :=
  match g.shortestPath start goal maxDegrees avoided required with
  | some path => some path
  | none =>
    if avoided.isEmpty || !prefer then none
    else g.shortestPath start goal maxDegrees [] required

end Graph

end Linkage
