import Linkage.Fixture

/-! Graphs of related entities. Relationships have no direction. -/

namespace Linkage

def Relationship.opposite (r : Relationship) (id : Int64) : Int64 :=
  if r.left = id then r.right else r.left

def Relationship.touches (r : Relationship) (id : Int64) : Bool := r.left == id || r.right == id

/-- A fixture that has passed its checks. -/
structure Graph where
  fixture : Fixture
  accepted : fixture.check = .ok ()

namespace Graph

def ofFixture (f : Fixture) : Except FixtureFault Graph :=
  match h : f.check with
  | .ok () => .ok ⟨f, h⟩
  | .error fault => .error fault

def entity? (g : Graph) (id : Int64) : Option Entity := g.fixture.entities.find? fun e => e.id == id

/-- The number of the entity that a record belongs to. -/
def ownerOf? (g : Graph) (r : Record) : Option Int64 :=
  (g.fixture.entities.find? fun e => e.records.contains r).map Entity.id

/-- The relationships of an entity by the numbers of the other entities; those with one entity
stay in the order in which they are given. -/
def relations (g : Graph) (id : Int64) : List Relationship :=
  (g.fixture.relationships.filter fun r => r.touches id).mergeSort fun a b =>
    decide (a.opposite id ≤ b.opposite id)

/-- The entities that an entity is related to, once for each relationship. -/
def neighbours (g : Graph) (id : Int64) : List Int64 :=
  (g.relations id).map fun r => r.opposite id

/-- An entity has a record from one of some sources. -/
def holdsSource (g : Graph) (sources : List String) (id : Int64) : Bool :=
  match g.entity? id with
  | some e => e.records.any fun r => sources.contains r.dataSource
  | none => false

def sources (g : Graph) : List String :=
  Text.Sorted.ofList
    (g.fixture.sources ++ g.fixture.entities.flatMap fun e => e.records.map Record.dataSource)

end Graph

end Linkage
