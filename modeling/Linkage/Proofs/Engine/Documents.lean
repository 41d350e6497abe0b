import Linkage.Proofs.Engine.Lists
import Linkage.Result

namespace Linkage

open Json (Value Tree Field ReadsAs)

theorem EntityPath.readsAs_native (p : EntityPath) : ReadsAs ofNative? p.native p := by
  have horigin := (ReadsAs.int64 p.origin).tree
  have htarget := (ReadsAs.int64 p.target).tree
  have hlist := ReadsAs.list fun id (_ : id ∈ p.entities) => ReadsAs.int64 id
  constructor
  · simp [native]
  · rw [native, ofNative?, Json.fields?_object (by simp)]
    simp [Tree.namedField, Field.required, Field.orElse, horigin, htarget, hlist.tree]

theorem Feature.readsAs_native (f : Feature) : ReadsAs ofNative? f.native f := by
  obtain ⟨text, usage⟩ := f
  have htext := (ReadsAs.text text).tree
  have husage (s : String) := (ReadsAs.nullableText s).tree
  constructor
  · cases usage <;> simp [native, Value.member]
  · cases usage <;> rw [native, ofNative?, Json.fields?_object (by simp [Value.member])] <;>
      simp [Tree.namedField, Field.required, Field.orElse, Value.member, htext, husage]

theorem Resolved.readsAs_native (e : Resolved) : ReadsAs ofNative? e.native e := by
  obtain ⟨id, name, features, records⟩ := e
  have hid := (ReadsAs.int64 id).tree
  have hname (s : String) := (ReadsAs.nullableText s).tree
  have hvalues := ReadsAs.table (t := features) (fun values => .array (values.map Feature.native))
    fun e _ => ReadsAs.list fun f _ => f.readsAs_native
  have hrecords := ReadsAs.list fun r (_ : r ∈ records) => r.readsAs_native
  constructor
  · cases name <;> simp [native, Value.member, hvalues.whole, hrecords.whole]
  · cases name <;> rw [native, ofNative?, Json.fields?_object (by simp [Value.member])] <;>
      simp [Tree.namedField, Field.required, Field.orElse, Value.member, hid, hname, hvalues.tree,
        hrecords.tree]

theorem Related.readsAs_native (e : Related) : ReadsAs ofNative? e.native e := by
  obtain ⟨id, name, matchLevel, matchKey, disclosed, ambiguous⟩ := e
  have hid := (ReadsAs.int64 id).tree
  have hlevel := (ReadsAs.int32 matchLevel).tree
  have htext (s : String) := (ReadsAs.nullableText s).tree
  have hflag (b : Bool) : (flagValue b).tree.flag? = some b := by cases b <;> rfl
  constructor
  · cases name <;> cases matchKey <;> simp [native, Value.member, flagValue]
  · cases name <;> cases matchKey <;>
      rw [native, ofNative?, Json.fields?_object (by simp [Value.member])] <;>
      simp [Tree.namedField, Field.required, Field.orElse, Value.member, hid, hlevel, htext, hflag]

theorem DocumentEntity.readsAs_native (e : DocumentEntity) : ReadsAs ofNative? e.native e := by
  have hresolved := e.resolved.readsAs_native
  have hrelated := ReadsAs.list fun r (_ : r ∈ e.related) => r.readsAs_native
  constructor
  · simp [native, hresolved.whole, hrelated.whole]
  · rw [native, ofNative?, Json.fields?_object (by simp)]
    simp [Tree.namedField, Field.required, Field.orElse, hresolved.tree, hrelated.tree]

namespace Document

theorem readsAs_native (d : Document) : ReadsAs ofNative? d.native d := by
  obtain ⟨paths, entities, limitReached⟩ := d
  have hpaths := ReadsAs.list fun p (_ : p ∈ paths) => p.readsAs_native
  have hentities := ReadsAs.list fun e (_ : e ∈ entities) => e.readsAs_native
  have hflag (b : Bool) : (Value.bool b).tree.nullable? Tree.flag? = some (some b) := rfl
  constructor
  · cases limitReached <;> simp [native, hpaths.whole, hentities.whole]
  · cases limitReached <;> rw [native, ofNative?, Json.fields?_object (by simp)] <;>
      simp [Tree.namedField, Field.orElse, hpaths.tree, hentities.tree, hflag]

/-- A document is read from its own text. -/
theorem ofText?_text (d : Document) : ofText? d.text = some d := d.readsAs_native.ofText

theorem read_ok {d : Document} {raw : String} {wording : Json.Wording} :
    read raw wording = .ok d ↔ ofText? raw = some d := by
  unfold read
  cases ofText? raw <;> simp

end Document

end Linkage
