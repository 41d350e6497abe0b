import Linkage.Fault
import Linkage.Json.Printer
import Linkage.Timestamp

namespace Linkage

open Json (Value)

def serverVersion : String := "0.1.0"

def restApiVersion : String := "2.0.0"

structure NativeInfo where
  version : String
  buildVersion : String
  buildNumber : String
  buildDate : Timestamp
  compatibility : String
  deriving DecidableEq, Repr

/-- The members by which a response tells the engine's versions. -/
def NativeInfo.members (n : NativeInfo) : List (String × Value) :=
  [("nativeApiVersion", .text n.version), ("nativeApiBuildVersion", .text n.buildVersion),
   ("nativeApiBuildNumber", .text n.buildNumber),
   ("nativeApiBuildDate", .text n.buildDate.text),
   ("configCompatibilityVersion", .text n.compatibility)]

def Server.builtInClasses : List (String × List String) :=
  [("NAME", ["NAME"]), ("ADDRESS", ["ADDRESS"]), ("PHONE", ["PHONE"]),
   ("IDENTIFIER", ["SSN", "SSN_LAST4", "DRLIC", "PASSPORT", "NATIONAL_ID", "TAX_ID", "ACCT_NUM",
      "EMAIL", "WEBSITE", "LINKEDIN", "OTHER_ID"]),
   ("ATTRIBUTE", ["DOB", "DOD", "GENDER", "NATIONALITY", "CITIZENSHIP", "REGISTRATION_DATE",
      "REGISTRATION_COUNTRY"]),
   ("RELATIONSHIP", ["REL_ANCHOR", "REL_POINTER"])]

/-- The built-in class of a feature. -/
def Server.builtInClass? (feature : String) : Option String :=
  (Server.builtInClasses.find? fun c => c.2.contains feature).map (·.1)

/-- What stays the same for all requests. -/
structure Server where
  sources : List String
  overrides : List (String × String)
  native : Option NativeInfo
  /-- The classes of the features that are not overridden. -/
  classes : String → Option String := Server.builtInClass?
  /-- Why a text of an engine cannot be read. -/
  wording : Json.Wording := .plain

namespace Server

/-- A server for the listed sources and overrides; of two overrides of a feature the later
counts. -/
def make (sources : List String) (overrides : List (String × String))
    (native : Option NativeInfo) : Server :=
  { sources := Text.Sorted.ofList sources, overrides := Text.Sorted.table overrides, native }

def knows (s : Server) (code : String) : Bool := s.sources.contains code

def classOf? (s : Server) (feature : String) : Option String :=
  match s.overrides.find? fun o => o.1 == feature with
  | some o => some o.2
  | none => s.classes feature

end Server

end Linkage
