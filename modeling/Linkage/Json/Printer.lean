import Linkage.Json.Value

namespace Linkage.Json

def quote (s : String) : String := String.ofList ('"' :: Quoted.encode s.toList ++ ['"'])

namespace Printer

def commas (parts : List String) : String := ",".intercalate parts

/-- An object on one line, from keys and printed members. -/
def compactObject (members : List (String × String)) : String :=
  "\x7b" ++ commas (members.map fun m => quote m.1 ++ ":" ++ m.2) ++ "\x7d"

def newline (level : Nat) : String :=
  String.ofList ('\n' :: List.replicate (2 * level) ' ')

/-- Parts one a line between two marks, at one level more than the marks. -/
def lines (level : Nat) (left right : String) (parts : List String) : String :=
  if parts.isEmpty then left ++ right
  else
    left ++ newline (level + 1) ++ ("," ++ newline (level + 1)).intercalate parts
      ++ newline level ++ right

/-- An object over several lines, from keys and members printed for one level more. -/
def prettyObject (level : Nat) (members : List (String × String)) : String :=
  lines level "\x7b" "\x7d" (members.map fun m => quote m.1 ++ ": " ++ m.2)

end Printer

namespace Value

open Printer

mutual

def compact : Value → String
  | .null => "null"
  | .bool true => "true"
  | .bool false => "false"
  | .number n => n.text
  | .text s => quote s
  | .array items => "[" ++ commas (compactItems items) ++ "]"
  | .object members => compactObject (compactMembers members)

def compactItems : List Value → List String
  | [] => []
  | v :: rest => compact v :: compactItems rest

def compactMembers : List (String × Value) → List (String × String)
  | [] => []
  | (key, v) :: rest => (key, compact v) :: compactMembers rest

end

mutual

def pretty (level : Nat) : Value → String
  | .null => "null"
  | .bool true => "true"
  | .bool false => "false"
  | .number n => n.text
  | .text s => quote s
  | .array items => lines level "[" "]" (prettyItems (level + 1) items)
  | .object members => prettyObject level (prettyMembers (level + 1) members)

def prettyItems (level : Nat) : List Value → List String
  | [] => []
  | v :: rest => pretty level v :: prettyItems level rest

def prettyMembers (level : Nat) : List (String × Value) → List (String × String)
  | [] => []
  | (key, v) :: rest => (key, pretty level v) :: prettyMembers level rest

end

end Value

end Linkage.Json
