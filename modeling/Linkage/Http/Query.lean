import Linkage.Request
import Linkage.Text.Form

namespace Linkage.Http

structure Query where
  pairs : List (String × String)
  deriving DecidableEq, Repr

namespace Query

/-- The pairs of a query string; none without one. -/
def parse (query : Option String) : Query := ⟨(query.map Text.Form.decode).getD []⟩

def first? (q : Query) (name : String) : Option String :=
  (q.pairs.find? fun p => p.1 == name).map (·.2)

def all (q : Query) (name : String) : List String :=
  (q.pairs.filter fun p => p.1 == name).map (·.2)

/-- A numeric parameter; blanks around the number are passed over. -/
def integer (q : Query) (name : String) (default : Int64) : Except Fault Int64 :=
  match q.first? name with
  | none => .ok default
  | some value =>
    match Text.int64? (Text.trim value) with
    | some n => .ok n
    | none => .error (.invalidParameter name value)

/-- Two texts are equal but for the case of ASCII letters. -/
def sameLetters (a b : String) : Bool := a.toList.map Char.toLower == b.toList.map Char.toLower

/-- A yes-no parameter: `true` or `false` in any case, or nothing for `true`. -/
def flag (q : Query) (name : String) (default : Bool) : Except Fault Bool :=
  match (q.first? name).map Text.trim with
  | none => .ok default
  | some value =>
    if value = "" ∨ sameLetters value "true" then .ok true
    else if sameLetters value "false" then .ok false
    else .error (.invalidParameter name value)

def pathParams (q : Query) : Except Fault PathParams := do
  let maxDegrees ← q.integer "maxDegrees" PathParams.defaultMaxDegrees
  let forbidAvoided ← q.flag "forbidAvoided" false
  let withRaw ← q.flag "withRaw" false
  return {
    origin := q.first? "from"
    target := q.first? "to"
    maxDegrees := maxDegrees
    avoid := q.all "x"
    forbidAvoided := forbidAvoided
    sources := q.all "s"
    withRaw := withRaw }

def networkParams (q : Query) : Except Fault NetworkParams := do
  let maxDegrees ← q.integer "maxDegrees" NetworkParams.defaultMaxDegrees
  let buildOut ← q.integer "buildOut" NetworkParams.defaultBuildOut
  let maxEntities ← q.integer "maxEntities" NetworkParams.defaultMaxEntities
  let withRaw ← q.flag "withRaw" false
  return {
    entities := q.all "e"
    maxDegrees := maxDegrees
    buildOut := buildOut
    maxEntities := maxEntities
    withRaw := withRaw }

end Query

end Linkage.Http
