import Linkage.Text.Sorted
import Linkage.Toml.Moment

namespace Linkage.Toml

/-- A value. The keys of a table are in code point order. -/
inductive Value where
  | text (s : String)
  | integer (n : Int64)
  | real (written : List Char)
  | bool (b : Bool)
  | moment (m : Moment)
  | array (items : List Value)
  | table (entries : List (String × Value))

namespace Value

def text? : Value → Option String
  | .text s => some s
  | _ => none

def natural? : Value → Option Nat
  | .integer n => if 0 ≤ n then some n.toInt.toNat else none
  | _ => none

def list? {α : Type} (read : Value → Option α) : Value → Option (List α)
  | .array items => items.mapM read
  | _ => none

/-- The key of the only entry of a moment that counts as a table. -/
def momentKey : String := "$__toml_private_datetime"

/-- The entries of a table. A moment counts as a table that holds its text. -/
def entries? : Value → Option (List (String × Value))
  | .table entries => some entries
  | .moment m => some [(momentKey, .text m.text)]
  | _ => none

/-- A table whose entries are all what `read` accepts. -/
def table? {α : Type} (read : Value → Option α) (v : Value) : Option (List (String × α)) := do
  (← v.entries?).mapM fun e => (read e.2).map fun a => (e.1, a)

def lookup? (entries : List (String × Value)) (key : String) : Option Value :=
  (entries.find? fun e => e.1 == key).map (·.2)

/-- The fields of a record, as far as they are given. -/
def fields? (names : List String) : Value → Option (String → Option Value)
  | .array items => some fun name => items[names.idxOf name]?
  | v => v.entries?.map lookup?

def orElse {α : Type} (default : α) (read : Value → Option α) : Option Value → Option α
  | some v => read v
  | none => some default

end Value

end Linkage.Toml
