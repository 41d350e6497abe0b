import Linkage.Json.Tree
import Linkage.Text.Sorted

namespace Linkage.Json

/-- A JSON value. An object lists its members in the order in which they are written. -/
inductive Value where
  | null
  | bool (b : Bool)
  | number (n : Number)
  | text (s : String)
  | array (items : List Value)
  | object (members : List (String × Value))

namespace Value

def int (n : Int) : Value := .number (.int n)

/-- A text as a value, or null when there is none. -/
def ofText? : Option String → Value
  | some s => .text s
  | none => .null

/-- The depth to which nested arrays and objects are read. -/
def depthLimit : Nat := 127

/-- The first key of an object that stands for another value, whose text it holds. -/
def enclosingKey : String := "$serde_json::private::RawValue"

def isEnclosing : List (List Piece × Tree) → Bool
  | (key, _) :: _ => Quoted.decode key == some enclosingKey.toList
  | [] => false

/-- The text in the only member of an object. -/
def onlyText? : List (List Piece × Tree) → Option String
  | [(_, .quoted pieces)] => (Quoted.decode pieces).map String.ofList
  | _ => none

/-- Reads a tree whose arrays and objects are nested no deeper than `depth`. The members of an
object are in the order of their keys; of two with one key the later counts. An object that encloses
a text stands for what `readText` makes of it. -/
def ofTree? (readText : String → Option Value) : Nat → Tree → Option Value
  | _, .null => some .null
  | _, .bool b => some (.bool b)
  | _, .number n => (Number.ofNumeral? n).map .number
  | _, .quoted pieces => (Quoted.decode pieces).map fun cs => .text (String.ofList cs)
  | 0, .array _ => none
  | 0, .object _ => none
  | depth + 1, .array items => (items.mapM (ofTree? readText depth)).map .array
  | depth + 1, .object members =>
    if isEnclosing members then (onlyText? members).bind readText
    else
      (members.mapM fun (m : List Piece × Tree) => do
        let key ← Quoted.decode m.1
        let value ← ofTree? readText depth m.2
        return (String.ofList key, value)).map fun entries => .object (Text.Sorted.table entries)

/-- The value written in a text. Texts enclose each other fewer than `layers` times. -/
def ofLayers? : Nat → String → Option Value
  | 0, _ => none
  | layers + 1, s => (Tree.ofText? s).bind (ofTree? (ofLayers? layers) depthLimit)

/-- The value written in a text. An enclosed text is shorter than what it stands in, so there are no
more layers than characters. -/
def ofString? (s : String) : Option Value := ofLayers? (s.length + 1) s

def member? (key : String) : Value → Option Value
  | .object members => (members.find? fun m => m.1 == key).map (·.2)
  | _ => none

end Value

end Linkage.Json
