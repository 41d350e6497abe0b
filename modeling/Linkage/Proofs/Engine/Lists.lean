import Linkage.Arguments
import Linkage.Proofs.Json.Readers
import Mathlib.Data.Set.List

namespace Linkage

open Json (Value Tree Field ReadsAs)

theorem Record.readsAs_native (r : Record) : ReadsAs ofNative? r.native r where
  whole := by simp [native]
  tree := by
    have hsource := (ReadsAs.text r.dataSource).tree
    have hrecord := (ReadsAs.text r.recordId).tree
    rw [native, ofNative?, Json.fields?_object (by simp)]
    simp [Tree.namedField, Field.required, hsource, hrecord]

theorem Identifier.readsAs_native (id : Int64) :
    ReadsAs IdentifierList.entityOfTree? (entity id).native id where
  whole := by simp [native]
  tree := by
    have hid := (ReadsAs.int64 id).tree
    rw [native, IdentifierList.entityOfTree?, Json.fields?_object (by simp)]
    simp [Tree.namedField, Field.required, hid]

/-- The identifiers of a list, all of one kind, in order. -/
def IdentifierList.Holds (list : IdentifierList) : Kind → List Identifier → Prop
  | .record, ids => list.entities = [] ∧ list.records.map .record = ids
  | .entity, ids => list.records = [] ∧ list.entities.map .entity = ids

namespace Arguments

/-- An object is not blank, whatever it holds. -/
theorem read?_object {α : Type} {default : α} {ofTree? : Tree → Option α}
    {members : List (String × Value)} {a : α} (h : ReadsAs ofTree? (.object members) a) :
    read? default ofTree? (Value.object members).compact = some a := by
  have hblank : Text.isBlankText (Value.object members).compact = false := by
    have hbrace : Text.isBlank '{' = false := by decide
    simp [Text.isBlankText, Value.compact, Json.Printer.compactObject, hbrace]
  rw [read?, hblank, if_neg Bool.false_ne_true, h.ofText]

theorem readsAs_records (records : List Record) :
    ReadsAs IdentifierList.ofTree?
      (.object [("RECORDS", .array (records.map Record.native))]) ⟨[], records⟩ := by
  have hlist := ReadsAs.list fun r (_ : r ∈ records) => r.readsAs_native
  constructor
  · simp [hlist.whole]
  · rw [IdentifierList.ofTree?, Json.fields?_object (by simp)]
    simp [Tree.namedField, Field.orElse, hlist.tree]

theorem readsAs_entities (ids : List Int64) :
    ReadsAs IdentifierList.ofTree?
      (.object [("ENTITIES", .array (ids.map fun id => (Identifier.entity id).native))])
      ⟨ids, []⟩ := by
  have hlist := ReadsAs.list fun id (_ : id ∈ ids) => Identifier.readsAs_native id
  constructor
  · simp [hlist.whole]
  · rw [IdentifierList.ofTree?, Json.fields?_object (by simp)]
    simp [Tree.namedField, Field.orElse, hlist.tree]

/-- A list of identifiers of one kind is read back in the place for that kind. -/
theorem ofText?_identifiersText {kind : Kind} {ids : List Identifier}
    (h : ∀ id ∈ ids, id.kind = kind) :
    ∃ list, IdentifierList.ofText? (identifiersText kind ids) = some list ∧
      list.Holds kind ids := by
  cases kind with
  | record =>
    obtain ⟨records, rfl⟩ : ids ∈ Set.range (List.map Identifier.record) := by
      rw [Set.range_list_map]
      intro id hid
      cases id with
      | record r => exact ⟨r, rfl⟩
      | entity id => cases h _ hid
    refine ⟨⟨[], records⟩, ?_, rfl, rfl⟩
    rw [identifiersText, List.map_map]
    exact read?_object (readsAs_records records)
  | entity =>
    obtain ⟨entities, rfl⟩ : ids ∈ Set.range (List.map Identifier.entity) := by
      rw [Set.range_list_map]
      intro id hid
      cases id with
      | record r => cases h _ hid
      | entity id => exact ⟨id, rfl⟩
    refine ⟨⟨entities, []⟩, ?_, rfl, rfl⟩
    rw [identifiersText, List.map_map]
    exact read?_object (readsAs_entities entities)

theorem ofText?_sourcesText (sources : List String) :
    SourceList.ofText? (sourcesText sources) = some sources := by
  have hlist := ReadsAs.list fun s (_ : s ∈ sources) => ReadsAs.text s
  refine read?_object ⟨by simp, ?_⟩
  rw [SourceList.ofTree?, Json.fields?_object (by simp)]
  simp [Tree.namedField, Field.orElse, hlist.tree]

end Arguments

end Linkage
