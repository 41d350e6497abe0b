import Linkage.Toml.Key
import Linkage.Toml.Value

/-! Tables that are still being filled. Nothing may be defined twice. -/

namespace Linkage.Toml

/-- How a table came about: on the way to a deeper table, by a key with dots, or by a header of its
own. -/
inductive Origin where
  | implied
  | dotted
  | header
  deriving DecidableEq, Repr

/-- What a key of an unfinished table stands for. The tables of a row are kept newest first. -/
inductive Node where
  | value (v : Value)
  | table (origin : Origin) (entries : List (String × Node))
  | row (tables : List (List (String × Node)))

abbrev Entries := List (String × Node)

namespace Node

def lookup? (key : String) (entries : Entries) : Option Node :=
  (entries.find? fun e => e.1 == key).map (·.2)

/-- Goes from a table down a path, making tables on the way, and changes the table at its end. A
path of dots may not enter a table that has a header of its own. -/
def alter (dots : Bool) (change : Origin → Entries → Option Entries) (origin : Origin)
    (entries : Entries) : List String → Option Entries
  | [] => change origin entries
  | key :: path =>
    match lookup? key entries with
    | none => do
      let made : Origin := if dots then .dotted else .implied
      return Text.Sorted.put key (.table made (← alter dots change made [] path)) entries
    | some (.table met inner) =>
      if dots ∧ met = .header then none
      else do
        return Text.Sorted.put key (.table met (← alter dots change met inner path)) entries
    | some (.row (last :: others)) => do
      return Text.Sorted.put key (.row ((← alter dots change .header last path) :: others)) entries
    | some (.row []) => none
    | some (.value _) => none

/-- Gives a key its value. A table that was not made by dots takes no key with dots. -/
def setEntry (viaDots : Bool) (key : String) (v : Value) (origin : Origin) (entries : Entries) :
    Option Entries :=
  if viaDots ≠ decide (origin = .dotted) then none
  else
    match lookup? key entries with
    | some _ => none
    | none => some (Text.Sorted.put key (.value v) entries)

def addPair (key : Key) (v : Value) (entries : Entries) : Option Entries :=
  alter true (setEntry (!key.path.isEmpty) key.last v) .header entries key.path

/-- Makes a table that a header names, unless it has been defined. -/
def openTable (key : String) (_ : Origin) (entries : Entries) : Option Entries :=
  match lookup? key entries with
  | none => some (Text.Sorted.put key (.table .header []) entries)
  | some (.table .implied inner) => some (Text.Sorted.put key (.table .header inner) entries)
  | some _ => none

def openItem (key : String) (_ : Origin) (entries : Entries) : Option Entries :=
  match lookup? key entries with
  | none => some (Text.Sorted.put key (.row [[]]) entries)
  | some (.row tables) => some (Text.Sorted.put key (.row ([] :: tables)) entries)
  | some _ => none

mutual

def finish : Node → Value
  | .value v => v
  | .table _ entries => .table (finishEntries entries)
  | .row tables => .array (finishTables tables).reverse

def finishEntries : List (String × Node) → List (String × Value)
  | [] => []
  | (key, node) :: rest => (key, finish node) :: finishEntries rest

def finishTables : List (List (String × Node)) → List Value
  | [] => []
  | entries :: rest => .table (finishEntries entries) :: finishTables rest

end

def tableOfPairs? (pairs : List (Key × Value)) : Option Value := do
  let entries ← pairs.foldlM (fun entries p => addPair p.1 p.2 entries) []
  return .table (finishEntries entries)

end Node

end Linkage.Toml
