import Linkage.Proofs.Json.Printed
import Linkage.Proofs.Text.Tables
import Mathlib.Data.List.Nodup

namespace Linkage.Json

variable {α β : Type}

theorem mapM_eq_some {f : α → Option β} {g : α → β} {items : List α}
    (h : ∀ a ∈ items, f a = some (g a)) : items.mapM f = some (items.map g) := by
  induction items with
  | nil => rfl
  | cons a rest ih =>
    obtain ⟨ha, hrest⟩ := List.forall_mem_cons.mp h
    rw [List.mapM_cons, ha, ih hrest]
    rfl

/-! ## Objects -/

theorem members?_object (members : List (String × Value)) :
    (Value.object members).tree.members? = some (members.map fun m => (m.1, m.2.tree)) := by
  rw [Value.tree, Value.memberTrees_eq, Tree.members?, List.mapM_map]
  refine mapM_eq_some fun m _ => ?_
  rw [Function.comp_apply, Quoted.decode_pieces, Option.map_some, String.ofList_toList]

/-- The fields of an object that gives no key twice are its members. -/
theorem fields?_object {members : List (String × Value)} (h : (members.map (·.1)).Nodup)
    (names : List String) : (Value.object members).tree.fields? names =
      some (Tree.namedField (members.map fun m => (m.1, m.2.tree))) := by
  have honce (name : String) :
      ((members.map fun m => (m.1, m.2.tree)).filter fun m => m.1 == name).length ≤ 1 := by
    have hcount := List.nodup_iff_count_le_one.mp h name
    rw [List.count, List.countP_map] at hcount
    rw [← List.countP_eq_length_filter, List.countP_map]
    exact hcount
  have hread : (Value.object members).tree.fields? names = (do
      let members ← (Value.object members).tree.members?
      if names.all fun name => decide ((members.filter fun m => m.1 == name).length ≤ 1) then
        some (Tree.namedField members)
      else none) := by
    rw [Value.tree, Tree.fields?]
    nofun
  rw [hread, members?_object, Option.bind_eq_bind, Option.bind_some, if_pos]
  exact List.all_eq_true.mpr fun name _ => decide_eq_true (honce name)

theorem tableOf?_eq_some {read : Tree → Option α} {t : Tree} {table : Text.Table α} :
    t.tableOf? read = some table ↔ t.table? read = some table.entries := by
  rw [Tree.tableOf?, Option.pmap_eq_some_iff]
  constructor
  · rintro ⟨entries, _, hread, rfl⟩
    exact hread
  · exact fun hread => ⟨table.entries, table.increasing, hread, rfl⟩

/-! ## What readers make of values -/

/-- The text of a value is one that a reader makes `a` of. -/
structure ReadsAs (read : Tree → Option α) (v : Value) (a : α) : Prop where
  whole : v.isWhole = true
  tree : read v.tree = some a

theorem ReadsAs.ofText {read : Tree → Option α} {v : Value} {a : α} (h : ReadsAs read v a) :
    (Tree.ofText? v.compact).bind read = some a := by
  rw [Tree.ofText?_compact h.whole, Option.bind_some, h.tree]

namespace ReadsAs

theorem text (s : String) : ReadsAs Tree.text? (.text s) s where
  whole := rfl
  tree := by
    rw [Value.tree, Tree.text?, Quoted.decode_pieces, Option.map_some, String.ofList_toList]

theorem nullableText (s : String) : ReadsAs (Tree.nullable? Tree.text?) (.text s) (some s) where
  whole := rfl
  tree := congrArg (Option.map some) (text s).tree

theorem int64 (x : Int64) : ReadsAs Tree.int64? (.int x.toInt) x := ⟨rfl, Tree.int64?_ofInt x⟩

theorem int32 (x : Int32) : ReadsAs Tree.int32? (.int x.toInt) x := ⟨rfl, Tree.int32?_ofInt x⟩

theorem list {read : Tree → Option α} {print : α → Value} {items : List α}
    (h : ∀ a ∈ items, ReadsAs read (print a) a) :
    ReadsAs (Tree.list? read) (.array (items.map print)) items where
  whole := by
    rw [Value.isWhole_array, List.forall_mem_map]
    exact fun a ha => (h a ha).whole
  tree := by
    rw [Value.tree, Value.trees_eq, Tree.list?, List.map_map, List.mapM_map]
    have hread : items.mapM (read ∘ Value.tree ∘ print) = some (items.map id) :=
      mapM_eq_some fun a ha => (h a ha).tree
    rw [hread, List.map_id]

theorem table {read : Tree → Option α} (print : α → Value) {t : Text.Table α}
    (h : ∀ e ∈ t.entries, ReadsAs read (print e.2) e.2) :
    ReadsAs (Tree.tableOf? read) (.object (t.entries.map fun e => (e.1, print e.2))) t where
  whole := by
    rw [Value.isWhole_object, List.forall_mem_map]
    exact fun e he => (h e he).whole
  tree := by
    have hread : (t.entries.map fun e => (e.1, (print e.2).tree)).mapM
        (fun m => (read m.2).map fun a => (m.1, a)) = some (t.entries.map id) := by
      rw [List.mapM_map]
      refine mapM_eq_some fun e he => ?_
      rw [Function.comp_apply, (h e he).tree, Option.map_some, id]
    rw [tableOf?_eq_some, Tree.table?, members?_object, Option.bind_eq_bind, Option.bind_some,
      List.map_map]
    refine (congrArg (Option.bind · _) hread).trans ?_
    rw [Option.bind_some, List.map_id, Text.Sorted.table_of_increasing t.increasing]
    rfl

end ReadsAs

end Linkage.Json
