import Linkage.Toml.Statement
import Linkage.Toml.Printer

namespace Linkage

structure Config where
  /-- Data sources that are known besides those of the engine. -/
  sources : List String := []
  /-- The address that the server listens at. -/
  bind : String := "127.0.0.1:8250"
  /-- The number of requests that are served at once. -/
  concurrency : Nat := 8
  /-- The file of the graph. -/
  fixture : Option String := none
  /-- The classes of features, in place of the built-in ones. -/
  features : List (String × String) := []
  deriving DecidableEq, Repr

namespace Config

open Toml (Value)

/-- Reads the section of the server: its address and its number of requests. -/
def readServer? (v : Value) : Option (String × Nat) := do
  let defaults : Config := {}
  let field ← v.fields? ["bind", "concurrency"]
  return (← Value.orElse defaults.bind Value.text? (field "bind"),
    ← Value.orElse defaults.concurrency Value.natural? (field "concurrency"))

def readEngine? (v : Value) : Option (Option String) := do
  let field ← v.fields? ["fixture"]
  Value.orElse none (fun v => v.text?.map some) (field "fixture")

/-- Reads a configuration. Keys that it does not know are passed over. -/
def ofValue? (v : Value) : Option Config := do
  let defaults : Config := {}
  let field ← v.fields? ["data_sources", "server", "engine", "features"]
  let sources ← Value.orElse [] (Value.list? Value.text?) (field "data_sources")
  let server ←
    Value.orElse (defaults.bind, defaults.concurrency) readServer? (field "server")
  let fixture ← Value.orElse none readEngine? (field "engine")
  let features ← Value.orElse [] (Value.table? Value.text?) (field "features")
  return ⟨sources, server.1, server.2, fixture, features⟩

def ofText? (s : String) : Option Config := (Toml.ofText? s).bind ofValue?

open Toml.Printer in
/-- A configuration as written; a file of the graph is named only if there is one. -/
def text (c : Config) : String :=
  line "data_sources" (texts c.sources)
    ++ "\n[server]\n" ++ line "bind" (Toml.Printer.text c.bind)
    ++ line "concurrency" (Text.decimal c.concurrency)
    ++ "\n[engine]\n" ++ (match c.fixture with
      | some path => line "fixture" (Toml.Printer.text path)
      | none => "")
    ++ "\n[features]\n"
    ++ String.join (c.features.map fun f => line f.1 (Toml.Printer.text f.2))

end Config

end Linkage
