import Linkage.Toml.Token

namespace Linkage.Toml

/-- A key in the table to which a path of keys leads. -/
structure Key where
  path : List String
  last : String
  deriving DecidableEq, Repr

inductive KeyPart where
  | name (cs : List Char)
  | dot
  deriving DecidableEq, Repr

namespace KeyPart

/-- The characters of names that need no marks: letters, digits, `_` and `-`. -/
def isBare (c : Char) : Bool := c.isAlphanum || c == '_' || c == '-'

def ofRun : List Char → List KeyPart
  | [] => []
  | c :: rest =>
    if c = '.' then .dot :: ofRun rest
    else
      match ofRun rest with
      | .name cs :: parts => .name (c :: cs) :: parts
      | parts => .name [c] :: parts

def ofToken? : Token → Option (List KeyPart)
  | .run cs => if cs.all fun c => isBare c || c == '.' then some (ofRun cs) else none
  | .quoted cs false => some [.name cs]
  | _ => none

end KeyPart

namespace Key

/-- The longest keys have fewer names than this. -/
def nameLimit : Nat := 80

def names? : List KeyPart → Option (List String)
  | [.name cs] => some [String.ofList cs]
  | .name cs :: .dot :: rest => (names? rest).map (String.ofList cs :: ·)
  | _ => none

def ofNames? (names : List String) : Option Key :=
  names.getLast?.map fun last => ⟨names.dropLast, last⟩

def ofParts? (parts : List KeyPart) : Option Key := do
  let names ← names? parts
  if names.length < nameLimit then ofNames? names else none

def names (k : Key) : List String := k.path ++ [k.last]

end Key

end Linkage.Toml
