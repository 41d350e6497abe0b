import Linkage.Identifier
import Linkage.Proofs.Json.Values
import Linkage.Proofs.Text.Numbers

/-!
Identifiers, printed and read. Reading trims the two parts of a record, so that only trimmed parts
come back from a printed form.
-/

namespace Linkage

open Json (Value)
open Text (trim trimChars isBlankText)

namespace Record

/-- The record without the blanks around its parts. -/
def trimmed (r : Record) : Record := ⟨trim r.dataSource, trim r.recordId⟩

/-- One of the parts is blank, or empty. -/
def hasBlankPart (r : Record) : Bool := isBlankText r.dataSource || isBlankText r.recordId

/-- A record in the form in which records are read. -/
structure Canonical (r : Record) : Prop where
  trimmed : r.trimmed = r
  visible : r.hasBlankPart = false

theorem canonical_iff {r : Record} : r.Canonical ↔
    (trim r.dataSource = r.dataSource ∧ r.dataSource ≠ "") ∧
      trim r.recordId = r.recordId ∧ r.recordId ≠ "" := by
  have hblank {s : String} (h : trim s = s) : isBlankText s = false ↔ s ≠ "" := by
    rw [← Bool.not_eq_true, Text.isBlankText_iff, h]
  constructor
  · rintro ⟨htrimmed, hvisible⟩
    obtain ⟨hsource, hrecord⟩ := Record.mk.inj htrimmed
    obtain ⟨hs, hr⟩ := Bool.or_eq_false_iff.mp hvisible
    exact ⟨⟨hsource, (hblank hsource).mp hs⟩, hrecord, (hblank hrecord).mp hr⟩
  · rintro ⟨⟨hsource, hs⟩, hrecord, hr⟩
    refine ⟨by rw [trimmed, hsource, hrecord], ?_⟩
    exact Bool.or_eq_false_iff.mpr ⟨(hblank hsource).mpr hs, (hblank hrecord).mpr hr⟩

/-- A record with a plain form has nothing to be trimmed, and its source ends at the first colon. -/
theorem hasPlainForm_iff {r : Record} : r.hasPlainForm = true ↔
    r.Canonical ∧ ':' ∉ r.dataSource.toList ∧ r.dataSource.toList.head? ≠ some '{' := by
  rw [canonical_iff]
  simp only [hasPlainForm, Bool.and_eq_true, bne_iff_ne, beq_iff_eq, Bool.not_eq_true',
    List.contains_eq_mem, decide_eq_false_iff_not]
  grind

end Record

namespace Identifier

/-- The identifier without the blanks around the parts of its record. -/
def trimmed : Identifier → Identifier
  | .record r => .record r.trimmed
  | .entity id => .entity id

/-- One of the parts of the record is blank. A number has no parts. -/
def hasBlankPart : Identifier → Bool
  | .record r => r.hasBlankPart
  | .entity _ => false

/-- An identifier in the form in which identifiers are read. -/
structure Canonical (id : Identifier) : Prop where
  trimmed : id.trimmed = id
  visible : id.hasBlankPart = false

theorem canonical_entity (n : Int64) : (entity n).Canonical := ⟨rfl, rfl⟩

theorem canonical_record {r : Record} (h : r.Canonical) : (record r).Canonical :=
  ⟨congrArg record h.trimmed, h.visible⟩

/-! ## Reading -/

theorem partIn?_trimmed {members : List (String × Value)} {keys : List String} {s : String}
    (h : partIn? members keys = some s) : trim s = s ∧ s ≠ "" := by
  obtain ⟨key, _, hkey⟩ := List.exists_of_findSome?_eq_some h
  split at hkey
  · rename_i text _
    split at hkey
    · cases hkey
    · rename_i hvisible
      cases hkey
      exact ⟨Text.trim_trim text, fun hnil => hvisible (Text.isBlankText_iff.mpr hnil)⟩
  · cases hkey
    exact Json.Number.trim_text _
  · cases hkey

theorem ofMembers?_canonical {members : List (String × Value)} {id : Identifier}
    (h : ofMembers? members = some id) : id.Canonical := by
  unfold ofMembers? at h
  split at h
  · cases h
    exact canonical_entity _
  · obtain ⟨source, hsource, h⟩ := Option.bind_eq_some_iff.mp h
    obtain ⟨record, hrecord, h⟩ := Option.bind_eq_some_iff.mp h
    cases h
    exact canonical_record
      (Record.canonical_iff.mpr ⟨partIn?_trimmed hsource, partIn?_trimmed hrecord⟩)

theorem ofPair?_canonical {text : String} {id : Identifier} (h : ofPair? text = some id) :
    id.Canonical := by
  have hpart (cs : List Char) (hne : trimChars cs ≠ []) :
      trim (String.ofList (trimChars cs)) = String.ofList (trimChars cs) ∧
        String.ofList (trimChars cs) ≠ "" := by
    rw [Text.trim_eq_self, ne_eq, ← String.toList_inj, String.toList_ofList]
    exact ⟨Text.bare_trimChars cs, hne⟩
  unfold ofPair? at h
  split at h
  · rename_i right _
    dsimp only at h
    split at h
    · cases h
    · rename_i hne
      cases h
      simp only [Bool.or_eq_true, List.isEmpty_iff, not_or] at hne
      exact canonical_record (Record.canonical_iff.mpr ⟨hpart _ hne.1, hpart right hne.2⟩)
  · cases h

/-- Only records with trimmed parts are ever read. -/
theorem parse?_canonical {text : String} {id : Identifier} (h : parse? text = some id) :
    id.Canonical := by
  unfold parse? at h
  dsimp only at h
  split at h
  · cases h
    exact canonical_entity _
  · split at h
    · unfold ofJson? at h
      split at h
      · exact ofMembers?_canonical h
      · cases h
    · exact ofPair?_canonical h

/-! ## Printed forms -/

theorem parse?_text_entity (n : Int64) : parse? (text (.entity n)) = some (.entity n) := by
  rw [text, parse?, Text.trim_decimal, Text.int64?_decimal]

/-- A text that begins with a brace is read as JSON, since it is no number. -/
theorem parse?_braced {text : String} (h : (trim text).toList.head? = some '{') :
    parse? text = ofJson? (trim text) := by
  have hnumber : Text.int64? (trim text) = none :=
    Text.int64?_eq_none (c := '{') (List.mem_of_mem_head? h) rfl (by decide) (by decide)
  rw [parse?, hnumber]
  exact if_pos h

/-- Nothing around braces is trimmed. -/
theorem parse?_braces {s : String} {inner : List Char} (h : s.toList = '{' :: inner ++ ['}']) :
    parse? s = ofJson? s := by
  have htrim : trim s = s := by
    rw [Text.trim_eq_self, h]
    exact .braces inner
  have hhead : (trim s).toList.head? = some '{' := by simp [htrim, h]
  rw [parse?_braced hhead, htrim]

theorem parse?_object {members : List (String × Value)}
    (h : Value.Regular Value.depthLimit (.object members)) :
    parse? (Value.object members).compact = ofMembers? members := by
  obtain ⟨inner, hinner⟩ := Value.compact_object members
  rw [parse?_braces hinner, ofJson?, h.ofString?_compact]

/-- The objects that name records are read back as they are printed. -/
theorem regular_pair {first second : String} (a b : String) (hlt : first < second)
    (hfirst : first ≠ Value.enclosingKey) :
    Value.Regular Value.depthLimit (.object [(first, .text a), (second, .text b)]) := by
  refine .object (List.pairwise_pair.mpr hlt) (fun m hm => ?_) fun m hm => ?_
  · rwa [← Option.some.inj hm]
  · simp only [List.mem_cons, List.not_mem_nil, or_false] at hm
    rcases hm with rfl | rfl <;> exact .text _

/-- What members name that hold no entity number and the two parts of a record as texts. -/
theorem ofMembers?_texts {members : List (String × Value)} {r : Record}
    (hentity : entityIn? members = none)
    (hsource : partIn? members sourceKeys =
      if isBlankText r.dataSource then none else some (trim r.dataSource))
    (hrecord : partIn? members recordKeys =
      if isBlankText r.recordId then none else some (trim r.recordId)) :
    ofMembers? members = if r.hasBlankPart then none else some (.record r.trimmed) := by
  rw [ofMembers?, hentity, hsource, hrecord, Record.hasBlankPart]
  cases isBlankText r.dataSource <;> cases isBlankText r.recordId <;> rfl

theorem parse?_json_record (r : Record) :
    parse? (Value.object [("id", .text r.recordId), ("src", .text r.dataSource)]).compact =
      if r.hasBlankPart then none else some (.record r.trimmed) := by
  rw [parse?_object (regular_pair _ _ (by decide) (by decide))]
  refine ofMembers?_texts rfl ?_ ?_
  · cases h : isBlankText r.dataSource <;> simp [partIn?, lookup?, sourceKeys, h]
  · cases h : isBlankText r.recordId <;> simp [partIn?, lookup?, recordKeys, h]

theorem parse?_native_record (r : Record) : parse? r.native.compact =
    if r.hasBlankPart then none else some (.record r.trimmed) := by
  rw [Record.native, parse?_object (regular_pair _ _ (by decide) (by decide))]
  refine ofMembers?_texts rfl ?_ ?_
  · cases h : isBlankText r.dataSource <;> simp [partIn?, lookup?, sourceKeys, h]
  · cases h : isBlankText r.recordId <;> simp [partIn?, lookup?, recordKeys, h]

theorem parse?_native_entity (n : Int64) :
    parse? (native (.entity n)).compact = some (.entity n) := by
  have hregular : Value.Regular Value.depthLimit (.object [("ENTITY_ID", .int n.toInt)]) := by
    refine .object (List.pairwise_singleton _ _) (fun m hm => ?_) fun m hm => ?_
    · rw [← Option.some.inj hm]
      exact (by decide : "ENTITY_ID" ≠ Value.enclosingKey)
    · rw [List.mem_singleton.mp hm]
      exact .int64 n
  have hfits : Json.Number.int64? (.int n.toInt) = some n := by
    rw [Json.Number.int64?, Text.int64OfInt?, if_pos ⟨n.minValue_le_toInt, n.toInt_le⟩,
      Int64.ofInt_toInt]
  rw [native, parse?_object hregular]
  simp [ofMembers?, entityIn?, lookup?, entityKeys, Value.int, hfits]

theorem toList_plain (r : Record) : (r.dataSource ++ ":" ++ r.recordId).toList =
    r.dataSource.toList ++ [':'] ++ r.recordId.toList := by
  rw [String.toList_append, String.toList_append]
  rfl

/-- The source of a record ends at the first colon. -/
theorem ofPair?_split {t : String} {left right : List Char} (h : t.toList = left ++ ':' :: right)
    (hleft : ∀ c ∈ left, (c != ':') = true) : ofPair? t =
      if (trimChars left).isEmpty || (trimChars right).isEmpty then none
      else some (.record ⟨String.ofList (trimChars left), String.ofList (trimChars right)⟩) := by
  have hdrop : t.toList.dropWhile (· != ':') = ':' :: right := by
    rw [h, List.dropWhile_append_of_pos hleft]
    rfl
  have htake : t.toList.takeWhile (· != ':') = left := by
    rw [h, List.takeWhile_append_of_pos hleft]
    exact List.append_nil left
  rw [ofPair?, hdrop, htake]

theorem ofPair?_plain {r : Record} (h : r.Canonical) (hcolon : ':' ∉ r.dataSource.toList) :
    ofPair? (r.dataSource ++ ":" ++ r.recordId) = some (.record r) := by
  obtain ⟨hsource, hrecord⟩ := Record.canonical_iff.mp h
  obtain ⟨hsourceBare, hsourceNe⟩ := Text.bare_of_trimmed hsource
  obtain ⟨hrecordBare, hrecordNe⟩ := Text.bare_of_trimmed hrecord
  have hbefore : ∀ c ∈ r.dataSource.toList, (c != ':') = true := by
    intro c hc
    exact bne_iff_ne.mpr fun he => hcolon (he ▸ hc)
  have hplain : (r.dataSource ++ ":" ++ r.recordId).toList =
      r.dataSource.toList ++ ':' :: r.recordId.toList := by
    rw [toList_plain, List.append_assoc, List.singleton_append]
  rw [ofPair?_split hplain hbefore, Text.trimChars_eq_self.mpr hsourceBare,
    Text.trimChars_eq_self.mpr hrecordBare]
  simp [hsourceNe, hrecordNe]

/-- A record without a colon in its source is read from its two parts. -/
theorem parse?_plain {r : Record} (h : r.hasPlainForm = true) :
    parse? (r.dataSource ++ ":" ++ r.recordId) = some (.record r) := by
  obtain ⟨hcanonical, hcolon, hbrace⟩ := Record.hasPlainForm_iff.mp h
  obtain ⟨hsource, hrecord⟩ := Record.canonical_iff.mp hcanonical
  obtain ⟨hsourceBare, hsourceNe⟩ := Text.bare_of_trimmed hsource
  obtain ⟨hrecordBare, hrecordNe⟩ := Text.bare_of_trimmed hrecord
  have htrim : trim (r.dataSource ++ ":" ++ r.recordId) = r.dataSource ++ ":" ++ r.recordId := by
    rw [Text.trim_eq_self, toList_plain]
    exact hsourceBare.join hrecordBare hsourceNe hrecordNe [':']
  have hnumber : Text.int64? (r.dataSource ++ ":" ++ r.recordId) = none :=
    Text.int64?_eq_none (c := ':') (by simp) rfl (by decide) (by decide)
  have hhead : (r.dataSource ++ ":" ++ r.recordId).toList.head? ≠ some '{' := by
    rwa [toList_plain, List.append_assoc, List.head?_append_of_ne_nil _ hsourceNe]
  rw [parse?, htrim, hnumber]
  exact (if_neg hhead).trans (ofPair?_plain hcanonical hcolon)

theorem parse?_text_record (r : Record) : parse? (text (.record r)) =
    if r.hasBlankPart then none else some (.record r.trimmed) := by
  by_cases h : r.hasPlainForm = true
  · obtain ⟨⟨htrimmed, hvisible⟩, _⟩ := Record.hasPlainForm_iff.mp h
    rw [text, if_pos h, parse?_plain h, hvisible, if_neg Bool.false_ne_true, htrimmed]
  · rw [text, if_neg h, parse?_json_record]

/-! ## Names -/

/-- What the text of an identifier names. -/
theorem parse?_text (id : Identifier) :
    parse? id.text = if id.hasBlankPart then none else some id.trimmed := by
  cases id with
  | entity n => exact parse?_text_entity n
  | record r => exact parse?_text_record r

/-- What the native JSON of an identifier names. -/
theorem parse?_native (id : Identifier) :
    parse? id.native.compact = if id.hasBlankPart then none else some id.trimmed := by
  cases id with
  | entity n => exact parse?_native_entity n
  | record r => exact parse?_native_record r

theorem Canonical.parse?_text {id : Identifier} (h : id.Canonical) :
    parse? id.text = some id := by
  rw [Identifier.parse?_text, h.visible, if_neg Bool.false_ne_true, h.trimmed]

theorem Canonical.parse?_native {id : Identifier} (h : id.Canonical) :
    parse? id.native.compact = some id := by
  rw [Identifier.parse?_native, h.visible, if_neg Bool.false_ne_true, h.trimmed]

/-- **Printed identifiers are read back.** An identifier that some text names is named by its own
text and by its native JSON too. So two texts name the same identifier exactly when what they name
is printed in the same way. -/
theorem names_round_trip (t : String) (id : Identifier) (h : parse? t = some id) :
    parse? id.text = some id ∧ parse? id.native.compact = some id ∧
      ∀ (t' : String) (id' : Identifier), parse? t' = some id' →
        (id' = id ↔ id'.text = id.text) := by
  have hcanonical := parse?_canonical h
  refine ⟨hcanonical.parse?_text, hcanonical.parse?_native, fun t' id' h' => ?_⟩
  refine ⟨congrArg text, fun htext => Option.some.inj ?_⟩
  rw [← (parse?_canonical h').parse?_text, htext, hcanonical.parse?_text]

/-- A source with a colon and a record id that is a number, both of them in an object. -/
def boxed : String := "\n \x7b\"DATA_SOURCE\" : \" A:B\", \"RECORD_ID\" : 1.50 \x7d\t"

theorem boxed_round_trip :
    parse? boxed = some (.record ⟨"A:B", "1.5"⟩) ∧
      parse? (text (.record ⟨"A:B", "1.5"⟩)) = some (.record ⟨"A:B", "1.5"⟩) ∧
      parse? (native (.record ⟨"A:B", "1.5"⟩)).compact = some (.record ⟨"A:B", "1.5"⟩) ∧
      ∀ (t' : String) (id' : Identifier), parse? t' = some id' →
        (id' = .record ⟨"A:B", "1.5"⟩ ↔ id'.text = text (.record ⟨"A:B", "1.5"⟩)) := by
  have hread : parse? boxed = some (.record ⟨"A:B", "1.5"⟩) := by decide +kernel
  exact ⟨hread, names_round_trip boxed _ hread⟩

/-- **Printing loses outer blanks.** The text of an identifier whose parts are not blank names it
with its parts trimmed. That is the identifier itself exactly when they are trimmed already, as it
is for every number. -/
theorem text_drops_outer_blanks (id : Identifier) (h : id.hasBlankPart = false) :
    parse? id.text = some id.trimmed ∧ (parse? id.text = some id ↔ id.trimmed = id) := by
  have hread : parse? id.text = some id.trimmed := by
    rw [parse?_text, h, if_neg Bool.false_ne_true]
  exact ⟨hread, by rw [hread, Option.some.injEq]⟩

/-- A record with blanks around both parts, and a source that begins like an object. -/
def padded : Identifier := .record ⟨"\u2003\x7bA:", "1 \n"⟩

theorem text_drops_padding :
    padded.hasBlankPart = false ∧ parse? padded.text = some padded.trimmed ∧
      (parse? padded.text = some padded ↔ padded.trimmed = padded) := by
  have hvisible : padded.hasBlankPart = false := by decide +kernel
  exact ⟨hvisible, text_drops_outer_blanks padded hvisible⟩

/-- A record is printed as an object because of the blank before its source, and still read as
another record. -/
theorem leadingBlank_renames :
    (record ⟨" A", "1"⟩).hasBlankPart = false ∧
      text (.record ⟨" A", "1"⟩) = "\x7b\"id\":\"1\",\"src\":\" A\"\x7d" ∧
      parse? (text (.record ⟨" A", "1"⟩)) ≠ some (.record ⟨" A", "1"⟩) := by
  decide +kernel

end Identifier

end Linkage
