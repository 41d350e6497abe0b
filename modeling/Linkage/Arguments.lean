import Linkage.Identifier

namespace Linkage

open Json (Value Tree Field)

namespace Arguments

/-- The member that lists identifiers of a kind. -/
def listKey : Kind → String
  | .record => "RECORDS"
  | .entity => "ENTITIES"

/-- A list of identifiers, all of the given kind. -/
def identifiersText (kind : Kind) (ids : List Identifier) : String :=
  Value.compact (.object [(listKey kind, .array (ids.map Identifier.native))])

def sourcesText (sources : List String) : String :=
  Value.compact (.object [("DATA_SOURCES", .array (sources.map .text))])

/-- Reads an argument; a blank text stands for `default`. -/
def read? {α : Type} (default : α) (ofTree? : Tree → Option α) (text : String) : Option α :=
  if Text.isBlankText text then some default else (Tree.ofText? text).bind ofTree?

end Arguments

structure IdentifierList where
  entities : List Int64
  records : List Record
  deriving DecidableEq, Repr

namespace IdentifierList

def entityOfTree? (t : Tree) : Option Int64 := do
  let field ← t.fields? ["ENTITY_ID"]
  (field "ENTITY_ID").required Tree.int64?

def ofTree? (t : Tree) : Option IdentifierList := do
  let field ← t.fields? ["ENTITIES", "RECORDS"]
  return ⟨← (field "ENTITIES").orElse [] (Tree.list? entityOfTree?),
    ← (field "RECORDS").orElse [] (Tree.list? Record.ofNative?)⟩

def ofText? (text : String) : Option IdentifierList := Arguments.read? ⟨[], []⟩ ofTree? text

end IdentifierList

namespace SourceList

def ofTree? (t : Tree) : Option (List String) := do
  let field ← t.fields? ["DATA_SOURCES"]
  (field "DATA_SOURCES").orElse [] (Tree.list? Tree.text?)

def ofText? (text : String) : Option (List String) := Arguments.read? [] ofTree? text

end SourceList

end Linkage
