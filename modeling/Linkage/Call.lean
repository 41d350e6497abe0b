import Linkage.Arguments
import Linkage.Request

namespace Linkage

/-- Which filters of a path call are in use. -/
inductive PathVariant where
  /-- Neither. -/
  | unfiltered
  /-- Avoided entities only. -/
  | excluding
  /-- Required sources, with or without avoided entities. -/
  | includingSource
  deriving DecidableEq, Repr

/-- The variant for a request that has avoided entities, and required sources, or not. -/
def PathVariant.of (hasAvoided hasSources : Bool) : PathVariant :=
  if hasSources then .includingSource else if hasAvoided then .excluding else .unfiltered

/-- The two ends of a path call, both named in one way. -/
inductive Endpoints where
  | records (origin target : Record)
  | entities (origin target : Int64)
  deriving DecidableEq, Repr

def Endpoints.kind : Endpoints → Kind
  | .records _ _ => .record
  | .entities _ _ => .entity

/-- The filter arguments of a path call. -/
inductive PathFilter where
  | unfiltered
  | excluding (excluded : String) (flags : Int64)
  | includingSource (excluded sources : String) (flags : Int64)
  deriving DecidableEq, Repr

def PathFilter.variant : PathFilter → PathVariant
  | .unfiltered => .unfiltered
  | .excluding _ _ => .excluding
  | .includingSource _ _ _ => .includingSource

inductive Call where
  | path (ends : Endpoints) (maxDegrees : Nat) (filter : PathFilter)
  | network (kind : Kind) (members : String) (maxDegrees buildOut maxEntities : Nat)
  deriving DecidableEq, Repr

namespace Call

def pathName : Kind → PathVariant → String
  | .record, .unfiltered => "findPathByRecordID"
  | .record, .excluding => "findPathExcludingByRecordID"
  | .record, .includingSource => "findPathIncludingSourceByRecordID"
  | .entity, .unfiltered => "findPathByEntityID"
  | .entity, .excluding => "findPathExcludingByEntityID"
  | .entity, .includingSource => "findPathIncludingSourceByEntityID"

def networkName : Kind → String
  | .record => "findNetworkByRecordID"
  | .entity => "findNetworkByEntityID"

def name : Call → String
  | .path ends _ filter => pathName ends.kind filter.variant
  | .network kind _ _ _ _ => networkName kind

/-- Flags that ask an engine to go around avoided entities where it can, rather than never to
pass through them. -/
def preferExclude : Int64 := 1

def avoidanceFlags (forbidAvoided : Bool) : Int64 := if forbidAvoided then 0 else preferExclude

end Call

namespace PathRequest

def variant (r : PathRequest) : PathVariant := PathVariant.of r.avoid.isSome r.sources.isSome

def callName (r : PathRequest) : String := Call.pathName r.kind r.variant

/-- Both ends, if they are named in one way. -/
def endpoints? (r : PathRequest) : Option Endpoints :=
  match r.origin, r.target with
  | .record a, .record b => some (.records a b)
  | .entity a, .entity b => some (.entities a b)
  | _, _ => none

def filter (r : PathRequest) : PathFilter :=
  let excluded := Arguments.identifiersText r.kind (r.avoid.getD [])
  let flags := Call.avoidanceFlags r.forbidAvoided
  match r.variant with
  | .unfiltered => .unfiltered
  | .excluding => .excluding excluded flags
  | .includingSource =>
    .includingSource excluded (Arguments.sourcesText (r.sources.getD [])) flags

/-- Why a request with ends of two kinds makes no call. -/
def mixedEnds (r : PathRequest) : Fault :=
  match r.kind with
  | .record => .unexpected "record-keyed call without record identifiers"
  | .entity => .unexpected "entity-keyed call without entity identifiers"

def call (r : PathRequest) : Except Fault Call :=
  match r.endpoints? with
  | some ends => .ok (.path ends r.maxDegrees r.filter)
  | none => .error r.mixedEnds

end PathRequest

namespace NetworkRequest

/-- The request's call; none when it has no members. -/
def call? (r : NetworkRequest) : Option Call :=
  r.kind?.map fun kind =>
    .network kind (Arguments.identifiersText kind r.entities) r.maxDegrees r.buildOut r.maxEntities

end NetworkRequest

end Linkage
