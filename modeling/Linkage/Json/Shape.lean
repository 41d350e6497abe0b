import Linkage.Json.Tree
import Linkage.Text.Sorted

/-!
Reading trees into typed values. A record with named fields is written as an object, whose other
members are passed over, or as an array that lists the fields in order.
-/

namespace Linkage.Json

namespace Tree

def text? : Tree → Option String
  | .quoted pieces => (Quoted.decode pieces).map String.ofList
  | _ => none

/-- An integer of 64 bits, written without fraction and exponent. -/
def int64? : Tree → Option Int64
  | .number n => (Number.ofNumeral? n).bind Number.int64?
  | _ => none

/-- An integer of 32 bits, written without fraction and exponent. -/
def int32? : Tree → Option Int32
  | .number n => (Number.ofNumeral? n).bind Number.int32?
  | _ => none

def bool? : Tree → Option Bool
  | .bool b => some b
  | _ => none

/-- A truth value, or an integer that is true unless it is zero. -/
def flag? : Tree → Option Bool
  | .bool b => some b
  | t => t.int64?.map (· != 0)

/-- Null, or what `read` accepts. -/
def nullable? {α : Type} (read : Tree → Option α) : Tree → Option (Option α)
  | .null => some none
  | t => (read t).map some

def list? {α : Type} (read : Tree → Option α) : Tree → Option (List α)
  | .array items => items.mapM read
  | _ => none

/-- The members of an object, with their keys read. -/
def members? : Tree → Option (List (String × Tree))
  | .object members => members.mapM fun (m : List Piece × Tree) =>
    (Quoted.decode m.1).map fun key => (String.ofList key, m.2)
  | _ => none

/-- An object whose members are all what `read` accepts, by key. -/
def table? {α : Type} (read : Tree → Option α) (t : Tree) : Option (List (String × α)) := do
  let members ← t.members?
  let entries ← members.mapM fun m => (read m.2).map fun a => (m.1, a)
  return Text.Sorted.table entries

/-- However they are written, the members are read in the order of their keys. -/
theorem table?_increasing {α : Type} {read : Tree → Option α} {t : Tree}
    {entries : List (String × α)} (h : t.table? read = some entries) :
    Text.Sorted.Increasing entries := by
  obtain ⟨members, _, h⟩ := Option.bind_eq_some_iff.mp h
  obtain ⟨written, _, h⟩ := Option.bind_eq_some_iff.mp h
  cases h
  exact Text.Sorted.increasing_table written

def tableOf? {α : Type} (read : Tree → Option α) (t : Tree) : Option (Text.Table α) :=
  (t.table? read).pmap Text.Table.mk fun _ => table?_increasing

end Tree

/-- A field of a record: written, left out by name, or beyond the end of an array. -/
inductive Field where
  | written (t : Tree)
  | unnamed
  | beyond

namespace Field

def required {α : Type} (read : Tree → Option α) : Field → Option α
  | .written t => read t
  | _ => none

def orElse {α : Type} (default : α) (read : Tree → Option α) : Field → Option α
  | .written t => read t
  | _ => some default

/-- A field that is null when it is left out by name. An array has to list it. -/
def optional {α : Type} (read : Tree → Option α) : Field → Option (Option α)
  | .written t => t.nullable? read
  | .unnamed => some none
  | .beyond => none

end Field

namespace Tree

/-- The field of a given name among members with distinct keys. -/
def namedField (members : List (String × Tree)) (name : String) : Field :=
  match members.find? fun m => m.1 == name with
  | some m => .written m.2
  | none => .unnamed

/-- The field at the place of a given name among `names`. -/
def listedField (names : List String) (items : List Tree) (name : String) : Field :=
  match items[names.idxOf name]? with
  | some t => .written t
  | none => .beyond

/-- The fields of a record. No name may be given twice, and an array may not be longer than the
list of names. -/
def fields? (names : List String) : Tree → Option (String → Field)
  | .array items => if items.length ≤ names.length then some (listedField names items) else none
  | t => do
    let members ← t.members?
    if names.all fun name => decide ((members.filter fun m => m.1 == name).length ≤ 1) then
      some (namedField members)
    else none

end Tree

end Linkage.Json
