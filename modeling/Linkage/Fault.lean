import Linkage.Text.Integer
import Linkage.Timers

namespace Linkage

namespace Json

/-- What a text is read as. -/
inductive Expected where
  | fixture
  | identifiers
  | sources
  | document
  | anything
  deriving DecidableEq, Repr

/-- The reason that a reader of texts gives when a text is not what it is read as. -/
abbrev Wording := Expected → String → String

def Expected.name : Expected → String
  | .fixture => "a graph fixture"
  | .identifiers => "a list of entities"
  | .sources => "a list of data sources"
  | .document => "an engine document"
  | .anything => "a JSON text"

/-- Tells only what was expected. -/
def Wording.plain : Wording := fun expected _ => "not " ++ expected.name

end Json

/-- What a parameter has to be: one of the bounds of requests, or what a wording says. -/
inductive Requirement where
  | positive
  | nonNegative
  | thirtyTwoBit
  | described (wording : String)
  deriving DecidableEq, Repr

def Requirement.text : Requirement → String
  | .positive => "greater than zero"
  | .nonNegative => "zero or greater"
  | .thirtyTwoBit => "a 32-bit value"
  | .described wording => wording

inductive Fault where
  | missingParameter (name : String)
  | malformedIdentifier (parameter value : String)
  | invalidParameter (parameter value : String)
  | inconsistentIdentifiers (context : String) (identifiers : List String)
  | unknownDataSource (code : String)
  | outOfRange (parameter : String) (requirement : Requirement) (value : Int64)
  | engineFailure (code : Int32) (diagnostic : String)
  | notJson (reason : String)
  | timer (fault : TimerFault)
  | unexpected (reason : String)
  deriving DecidableEq, Repr

namespace Fault

def message : Fault → String
  | .missingParameter name => "Parameter missing or empty: \"" ++ name ++ "\""
  | .malformedIdentifier parameter value =>
    "Parameter is not formatted correctly: \"" ++ parameter ++ "\" (value: " ++ value ++ ")"
  | .invalidParameter parameter value =>
    "Invalid value for parameter \"" ++ parameter ++ "\": " ++ value
  | .inconsistentIdentifiers context identifiers =>
    "Entity identifiers for " ++ context ++ " must be of consistent types: ["
      ++ ", ".intercalate identifiers ++ "]"
  | .unknownDataSource code => "Unrecognized data source: " ++ code
  | .outOfRange parameter requirement value =>
    parameter ++ " must be " ++ requirement.text ++ ": " ++ Text.decimal value.toInt
  | .engineFailure code diagnostic =>
    "Engine failure (" ++ Text.decimal code.toInt ++ "): " ++ diagnostic
  | .notJson reason => "Serialization error: " ++ reason
  | .timer fault => "Timer error: " ++ fault.message
  | .unexpected reason => "Unexpected failure: " ++ reason

/-- The cause lies in the request's parameters. -/
def isClient : Fault → Bool
  | .missingParameter _ => true
  | .malformedIdentifier _ _ => true
  | .invalidParameter _ _ => true
  | .inconsistentIdentifiers _ _ => true
  | .unknownDataSource _ => true
  | .outOfRange _ _ _ => true
  | _ => false

def status (f : Fault) : Nat := if f.isClient then 400 else 500

/-- The engine's own code of the failure. -/
def engineCode? : Fault → Option Int32
  | .engineFailure code _ => some code
  | _ => none

end Fault

end Linkage
