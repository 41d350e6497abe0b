import Linkage.Json.Value
import Linkage.Proofs.Json.Readers

namespace Linkage.Json.Value

open Text.Sorted (Increasing)

/-- A value in the form in which values are read, with arrays and objects nested no deeper than
`depth`. The first key of an object is not the one that stands for another value. -/
inductive Regular : Nat → Value → Prop where
  | null {depth : Nat} : Regular depth .null
  | bool {depth : Nat} (b : Bool) : Regular depth (.bool b)
  | int {depth : Nat} {n : Int} (least : Int64.minValue.toInt ≤ n)
      (greatest : n ≤ Int64.maxValue.toInt) : Regular depth (.int n)
  | text {depth : Nat} (s : String) : Regular depth (.text s)
  | array {depth : Nat} {items : List Value} (items_regular : ∀ v ∈ items, Regular depth v) :
      Regular (depth + 1) (.array items)
  | object {depth : Nat} {members : List (String × Value)} (keys : Increasing members)
      (first : ∀ m ∈ members.head?, m.1 ≠ enclosingKey)
      (values_regular : ∀ m ∈ members, Regular depth m.2) : Regular (depth + 1) (.object members)

variable {depth : Nat} {v : Value}

theorem Regular.int64 (x : Int64) : Regular depth (.int x.toInt) :=
  .int x.minValue_le_toInt x.toInt_le

theorem Regular.isWhole (h : v.Regular depth) : v.isWhole = true := by
  induction h with
  | array _ ih => exact isWhole_array.mpr ih
  | object _ _ _ ih => exact isWhole_object.mpr ih
  | _ => rfl

/-- Whether an object encloses a text is seen from its first key. -/
theorem isEnclosing_memberTrees {members : List (String × Value)}
    (h : ∀ m ∈ members.head?, m.1 ≠ enclosingKey) : isEnclosing (memberTrees members) = false := by
  cases members with
  | nil => rfl
  | cons m rest =>
    have hkey : m.1.toList ≠ enclosingKey.toList := fun he => h m rfl (String.toList_inj.mp he)
    rw [memberTrees, isEnclosing, Quoted.decode_pieces]
    simpa using hkey

/-- A regular value is read from its own tree. -/
theorem Regular.ofTree?_tree (readText : String → Option Value) (h : v.Regular depth) :
    ofTree? readText depth v.tree = some v := by
  induction h with
  | null => rw [tree, ofTree?]
  | bool => rw [tree, ofTree?]
  | int least greatest =>
    rw [Value.int, tree, Number.numeral, ofTree?, Number.ofNumeral?_ofInt least greatest,
      Option.map_some]
  | text s => rw [tree, ofTree?, Quoted.decode_pieces, Option.map_some, String.ofList_toList]
  | @array depth items _ ih =>
    have hread : items.mapM (ofTree? readText depth ∘ tree) = some (items.map id) :=
      mapM_eq_some ih
    rw [tree, trees_eq, ofTree?, List.mapM_map, hread, List.map_id, Option.map_some]
  | @object depth members keys first _ ih =>
    have hread : members.mapM ((fun (m : List Piece × Tree) => do
        let key ← Quoted.decode m.1
        let value ← ofTree? readText depth m.2
        return (String.ofList key, value)) ∘ fun m => (Quoted.pieces m.1, m.2.tree)) =
          some (members.map id) := by
      refine mapM_eq_some fun m hm => ?_
      rw [Function.comp_apply, Quoted.decode_pieces, Option.bind_eq_bind, Option.bind_some,
        ih m hm, Option.bind_eq_bind, Option.bind_some, String.ofList_toList]
      rfl
    rw [tree, ofTree?, isEnclosing_memberTrees first, if_neg Bool.false_ne_true, memberTrees_eq,
      List.mapM_map, hread, List.map_id, Option.map_some,
      Text.Sorted.table_of_increasing keys]

/-- A regular value is what its text is read as. -/
theorem Regular.ofString?_compact (h : v.Regular depthLimit) : ofString? v.compact = some v := by
  rw [ofString?, ofLayers?, Tree.ofText?_compact h.isWhole, Option.bind_some, h.ofTree?_tree]

/-- The text of an object stands between braces. -/
theorem compact_object (members : List (String × Value)) :
    ∃ inner, (object members).compact.toList = '{' :: inner ++ ['}'] := by
  refine ⟨(Printer.commas ((compactMembers members).map fun m =>
    quote m.1 ++ ":" ++ m.2)).toList, ?_⟩
  rw [compact, Printer.compactObject, String.toList_append, String.toList_append]
  rfl

end Linkage.Json.Value
