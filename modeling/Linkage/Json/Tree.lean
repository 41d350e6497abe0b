import Linkage.Json.Token

/-!
The structure of a JSON text, with texts and numbers as written.

Nesting may be arbitrarily deep. A quoted text may hold half of a pair of codes, and a numeral
may be too large for a number; only reading them fails.
-/

namespace Linkage.Json

/-- A JSON value as written. -/
inductive Tree where
  | null
  | bool (b : Bool)
  | number (n : Numeral)
  | quoted (pieces : List Piece)
  | array (items : List Tree)
  | object (members : List (List Piece × Tree))

namespace Tree

/-- A container that is still open, with what it holds so far, newest first. -/
inductive Frame where
  | array (items : List Tree)
  | object (members : List (List Piece × Tree)) (key : List Piece)

/-- What is expected next, inside the open containers, innermost first. -/
inductive Builder where
  /-- A value. -/
  | value (frames : List Frame)
  /-- A value, or the end of an array that has just begun. -/
  | item (frames : List Frame)
  /-- A key, or the end of an object that has just begun. -/
  | member (frames : List Frame)
  /-- A key after a comma. -/
  | key (members : List (List Piece × Tree)) (frames : List Frame)
  /-- The colon after a key. -/
  | colon (members : List (List Piece × Tree)) (key : List Piece) (frames : List Frame)
  /-- What follows a value. -/
  | after (value : Tree) (frames : List Frame)

namespace Builder

def begin? (frames : List Frame) : Token → Option Builder
  | .null => some (.after .null frames)
  | .bool b => some (.after (.bool b) frames)
  | .number n => some (.after (.number n) frames)
  | .quoted pieces => some (.after (.quoted pieces) frames)
  | .beginArray => some (.item frames)
  | .beginObject => some (.member frames)
  | _ => none

def follow? (v : Tree) : List Frame → Token → Option Builder
  | .array items :: frames, .comma => some (.value (.array (v :: items) :: frames))
  | .array items :: frames, .endArray => some (.after (.array (v :: items).reverse) frames)
  | .object members k :: frames, .comma => some (.key ((k, v) :: members) frames)
  | .object members k :: frames, .endObject =>
    some (.after (.object ((k, v) :: members).reverse) frames)
  | _, _ => none

def step : Builder → Token → Option Builder
  | .value frames, t => begin? frames t
  | .item frames, .endArray => some (.after (.array []) frames)
  | .item frames, t => begin? (.array [] :: frames) t
  | .member frames, .endObject => some (.after (.object []) frames)
  | .member frames, .quoted k => some (.colon [] k frames)
  | .member _, _ => none
  | .key members frames, .quoted k => some (.colon members k frames)
  | .key _ _, _ => none
  | .colon members k frames, .colon => some (.value (.object members k :: frames))
  | .colon _ _ _, _ => none
  | .after v frames, t => follow? v frames t

/-- The tree, when one value is complete and no container is open. -/
def finish : Builder → Option Tree
  | .after v [] => some v
  | _ => none

end Builder

def ofTokens? (ts : List Token) : Option Tree :=
  (ts.foldlM Builder.step (.value [])).bind Builder.finish

def ofText? (s : String) : Option Tree := (Token.ofChars? s.toList).bind ofTokens?

end Tree

end Linkage.Json
