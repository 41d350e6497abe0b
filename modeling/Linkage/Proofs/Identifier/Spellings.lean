import Linkage.Proofs.Identifier.Names
import Linkage.Proofs.Json.Layers

/-!
The spellings of an identifier: a number, the two parts of a record, and the objects that name
either, whatever else is in them.
-/

namespace Linkage.Identifier

open Json (Value Tree)
open Text (trim trimChars isBlank isBlankText)

variable {members : List (String × Value)} {text s r : String}

/-- The entity number under a key. -/
def numberAt? (members : List (String × Value)) (key : String) : Option Int64 :=
  match lookup? members key with
  | some (.number n) => n.int64?
  | _ => none

/-- One of the keys holds the text, and the others are missing. -/
def HoldsOnce (members : List (String × Value)) (keys : List String) (s : String) : Prop :=
  ∃ key ∈ keys, lookup? members key = some (.text s) ∧
    ∀ other ∈ keys, other ≠ key → lookup? members other = none

/-- An object with one text for the source of a record, one for its id, and no entity number. -/
structure SpellsRecord (members : List (String × Value)) (s r : String) : Prop where
  source : HoldsOnce members sourceKeys s
  record : HoldsOnce members recordKeys r
  visible : isBlankText s = false ∧ isBlankText r = false
  unnumbered : numberAt? members "ENTITY_ID" = none ∧ numberAt? members "entityId" = none

/-- An object with an entity number. The key `id` counts only if it is the only one. -/
inductive SpellsNumber (members : List (String × Value)) (n : Int64) : Prop
  | native (h : numberAt? members "ENTITY_ID" = some n)
  | plain (hnative : numberAt? members "ENTITY_ID" = none)
      (h : numberAt? members "entityId" = some n)
  | single (value : Value) (hmembers : members = [("id", value)])
      (h : numberAt? members "id" = some n)

/-! ## Objects -/

/-- The keys of a number, in their order; the shortest counts only where it stands alone. -/
theorem entityIn?_eq (members : List (String × Value)) : entityIn? members =
    (numberAt? members "ENTITY_ID").or ((numberAt? members "entityId").or
      (if members.length = 1 then numberAt? members "id" else none)) := by
  have hkeys : entityIn? members = entityKeys.findSome? fun key =>
      if key = "id" ∧ members.length ≠ 1 then none else numberAt? members key := by
    unfold entityIn?
    refine congrArg (List.findSome? · entityKeys) (funext fun key => ?_)
    unfold numberAt?
    cases lookup? members key with
    | none => exact (ite_self none).symm
    | some value => cases value <;> simp
  rw [hkeys, entityKeys]
  simp only [List.findSome?_cons, List.findSome?_nil]
  cases numberAt? members "ENTITY_ID" <;> cases numberAt? members "entityId" <;>
    by_cases hsingle : members.length = 1 <;> simp [hsingle]
  cases numberAt? members "id" <;> rfl

theorem HoldsOnce.numberAt?_eq_none {keys : List String} {key : String}
    (h : HoldsOnce members keys s) (hkey : key ∈ keys) : numberAt? members key = none := by
  obtain ⟨holder, -, hholder, hothers⟩ := h
  rw [numberAt?]
  by_cases heq : key = holder
  · rw [heq, hholder]
  · rw [hothers key hkey heq]

theorem HoldsOnce.partIn? {keys : List String} (h : HoldsOnce members keys s)
    (hvisible : isBlankText s = false) : partIn? members keys = some (trim s) := by
  obtain ⟨holder, hholder, htext, hothers⟩ := h
  rw [Identifier.partIn?]
  induction keys with
  | nil => cases hholder
  | cons key rest ih =>
    rw [List.findSome?_cons]
    by_cases heq : key = holder
    · rw [heq, htext]
      simp only [hvisible, Bool.false_eq_true, ↓reduceIte]
    · rw [hothers key List.mem_cons_self heq]
      refine ih ?_ fun other hother => hothers other (List.mem_cons_of_mem key hother)
      exact (List.mem_cons.mp hholder).resolve_left fun h => heq h.symm

theorem SpellsRecord.ofMembers? (h : SpellsRecord members s r) :
    ofMembers? members = some (.record ⟨trim s, trim r⟩) := by
  have hentity : entityIn? members = none := by
    rw [entityIn?_eq, h.unnumbered.1, h.unnumbered.2, h.record.numberAt?_eq_none (by decide)]
    exact ite_self none
  rw [Identifier.ofMembers?, hentity, h.source.partIn? h.visible.1, h.record.partIn? h.visible.2]
  rfl

theorem SpellsNumber.ofMembers? {n : Int64} (h : SpellsNumber members n) :
    ofMembers? members = some (.entity n) := by
  have hentity : entityIn? members = some n := by
    rw [entityIn?_eq]
    cases h with
    | native h => rw [h, Option.some_or]
    | plain hnative h => rw [hnative, h, Option.none_or, Option.some_or]
    | single value hmembers h =>
      have hothers : numberAt? members "ENTITY_ID" = none ∧
          numberAt? members "entityId" = none := by
        simp [hmembers, numberAt?, lookup?]
      rw [hothers.1, hothers.2, h, hmembers]
      rfl
  rw [Identifier.ofMembers?, hentity]

/-! ## Texts -/

/-- An object is read as what its members name, whatever stands around it. -/
theorem parse?_members (h : Value.ofString? text = some (.object members)) :
    parse? text = ofMembers? members := by
  obtain ⟨_, htree⟩ := Value.tree_of_ofString? h
  rw [parse?_braced (Tree.object_trim htree).2, ofJson?, Value.ofString?_trim h]

/-- What is no object is not read, though there may be a colon in it. -/
theorem parse?_not_object (h : (trim text).toList.head? = some '{')
    (hvalue : ∀ members, Value.ofString? (trim text) ≠ some (.object members)) :
    parse? text = none := by
  rw [parse?_braced h, ofJson?]
  split
  · rename_i members hmembers
    exact absurd hmembers (hvalue members)
  · rfl

/-- An object with something behind it is no object. -/
theorem parse?_trailing (h : Value.ofString? text = some (.object members)) {rest : String}
    (hrest : isBlankText rest = false) : parse? (text ++ rest) = none := by
  obtain ⟨_, htree⟩ := Value.tree_of_ofString? h
  obtain ⟨hobject, hfront⟩ := Tree.object_trim htree
  have hne : trimChars text.toList ≠ [] := by
    rintro hnil
    rw [trim, String.toList_ofList, hnil] at hfront
    cases hfront
  have hvisible := Text.isBlankText_eq_false.mp hrest
  obtain ⟨after, before, -, -, hjoin⟩ := Text.trimChars_join hne hvisible []
  have htrim : (trim (text ++ rest)).toList =
      (trim text).toList ++ (after ++ before ++ trimChars rest.toList) := by
    rw [trim, trim, String.toList_ofList, String.toList_ofList, String.toList_append]
    simpa using hjoin
  have hhead : (trim (text ++ rest)).toList.head? = some '{' := by
    rw [htrim, List.head?_append, hfront, Option.some_or]
  refine parse?_not_object hhead fun members hmembers => ?_
  obtain ⟨_, hwhole⟩ := Value.tree_of_ofString? hmembers
  have hbehind : ∃ c ∈ after ++ before ++ trimChars rest.toList, Json.Token.isSpace c = false := by
    obtain ⟨c, tail, hc⟩ := List.exists_cons_of_ne_nil hvisible
    have hblank := (Text.bare_trimChars rest.toList).front c (by simp [hc])
    refine ⟨c, by simp [hc], Bool.eq_false_iff.mpr fun hspace => ?_⟩
    cases hblank.symm.trans (Json.Token.isBlank_of_isSpace hspace)
  rw [Tree.ofText?, htrim, Tree.object_trailing hobject hbehind] at hwhole
  cases hwhole

/-- Of two parts joined by a colon trimming leaves both, the blanks around the colon included. -/
theorem trim_joined (hs : isBlankText s = false) (hr : isBlankText r = false) :
    ∃ after right, (trim (s ++ ":" ++ r)).toList = trimChars s.toList ++ after ++ ':' :: right ∧
      (∀ c ∈ after, isBlank c = true) ∧
      trimChars (trimChars s.toList ++ after) = trimChars s.toList ∧
      trimChars right = trimChars r.toList := by
  have hsource := Text.isBlankText_eq_false.mp hs
  have hrecord := Text.isBlankText_eq_false.mp hr
  obtain ⟨after, before, hafter, hbefore, hjoin⟩ := Text.trimChars_join hsource hrecord [':']
  have hnone : ∀ c ∈ ([] : List Char), isBlank c = true := by simp
  have hfront := Text.trimChars_framed hnone (Text.bare_trimChars s.toList) hsource hafter
  have hback := Text.trimChars_framed hbefore (Text.bare_trimChars r.toList) hrecord hnone
  rw [List.nil_append] at hfront
  rw [List.append_nil] at hback
  refine ⟨after, before ++ trimChars r.toList, ?_, hafter, hfront, hback⟩
  rw [trim, String.toList_ofList, String.toList_append, String.toList_append]
  simpa using hjoin

/-- The parts of a record joined by a colon name the record, unless the source has a colon itself or
begins like an object. -/
theorem parse?_joined (hs : isBlankText s = false) (hr : isBlankText r = false)
    (hcolon : ':' ∉ (trim s).toList) (hbrace : (trim s).toList.head? ≠ some '{') :
    parse? (s ++ ":" ++ r) = some (.record ⟨trim s, trim r⟩) := by
  rw [trim, String.toList_ofList] at hcolon hbrace
  have hsource := Text.isBlankText_eq_false.mp hs
  have hrecord := Text.isBlankText_eq_false.mp hr
  obtain ⟨after, right, htrim, hafter, hleft, hright⟩ := trim_joined hs hr
  have hnumber : Text.int64? (trim (s ++ ":" ++ r)) = none :=
    Text.int64?_eq_none (c := ':') (by simp [htrim]) rfl (by decide) (by decide)
  have hhead : (trim (s ++ ":" ++ r)).toList.head? ≠ some '{' := by
    rwa [htrim, List.append_assoc, List.head?_append_of_ne_nil _ hsource]
  have hbefore : ∀ c ∈ trimChars s.toList ++ after, (c != ':') = true := by
    intro c hc
    refine bne_iff_ne.mpr fun heq => ?_
    subst heq
    rcases List.mem_append.mp hc with hc | hc
    · exact hcolon hc
    · cases hafter ':' hc
  rw [parse?, hnumber]
  refine (if_neg hhead).trans ?_
  rw [ofPair?_split htrim hbefore, hleft, hright, List.isEmpty_eq_false_iff.mpr hsource,
    List.isEmpty_eq_false_iff.mpr hrecord]
  rfl

/-- **All spellings of an identifier agree.** An object that spells a record is read as that record,
and so is the plain text of its two parts, if it can be; an object that spells a number is read as
that number, and so is the number in decimals. What begins with a brace and is no object is not
read at all, not even an object with something behind it. -/
theorem spellings_agree :
    (∀ text members, Value.ofString? text = some (.object members) →
      (∀ s r, SpellsRecord members s r → parse? text = some (.record ⟨trim s, trim r⟩) ∧
        (':' ∉ (trim s).toList → (trim s).toList.head? ≠ some '{' →
          parse? (s ++ ":" ++ r) = parse? text)) ∧
      (∀ n, SpellsNumber members n → parse? text = some (.entity n)) ∧
      (∀ rest, isBlankText rest = false → parse? (text ++ rest) = none)) ∧
    (∀ n : Int64, parse? (Text.decimal n.toInt) = some (.entity n)) ∧
    ∀ text, (trim text).toList.head? = some '{' →
      (∀ members, Value.ofString? (trim text) ≠ some (.object members)) → parse? text = none := by
  refine ⟨fun text members h => ⟨fun s r hspells => ?_, fun n hspells => ?_, fun rest hrest => ?_⟩,
    parse?_text_entity, fun text => parse?_not_object⟩
  · have hread := (parse?_members h).trans hspells.ofMembers?
    refine ⟨hread, fun hcolon hbrace => ?_⟩
    rw [hread, parse?_joined hspells.visible.1 hspells.visible.2 hcolon hbrace]
  · exact (parse?_members h).trans hspells.ofMembers?
  · exact parse?_trailing h hrest

/-- A record with blanks around its parts, among other members. -/
def blankedRecord : String :=
  "\n\x7b \"note\" : [1, \x7b\x7d], \"recordId\":\" 7:b\\u2003\", \"dataSource\" : \"\\tA \", " ++
    "\"ENTITY_ID\": \"5\" \x7d "

def blankedMembers : List (String × Value) :=
  [("ENTITY_ID", .text "5"), ("dataSource", .text "\tA "),
    ("note", .array [.int 1, .object []]), ("recordId", .text " 7:b\u2003")]

theorem blanked_spells : SpellsRecord blankedMembers "\tA " " 7:b\u2003" where
  source := ⟨"dataSource", by decide, rfl, by decide +kernel⟩
  record := ⟨"recordId", by decide, rfl, by decide +kernel⟩
  visible := by decide
  unnumbered := ⟨rfl, rfl⟩

/-- A number under the second key for it, beside a record. -/
def numberedRecord : String :=
  "\x7b\"src\":\"A\",\"id\":\"1\",\"entityId\":-7,\"ENTITY_ID\":\"7\"\x7d"

theorem blanked_spellings_agree :
    (parse? blankedRecord = some (.record ⟨"A", "7:b"⟩) ∧
      parse? ("\tA " ++ ":" ++ " 7:b\u2003") = parse? blankedRecord ∧
      parse? (blankedRecord ++ "x") = none) ∧
    parse? numberedRecord = some (.entity (-7)) ∧
    parse? (Text.decimal (Int64.toInt (-7))) = some (.entity (-7)) ∧
    parse? "\x7bA:1" = none := by
  obtain ⟨hobjects, hdecimal, hbraced⟩ := spellings_agree
  obtain ⟨hrecord, -, htrailing⟩ := hobjects blankedRecord blankedMembers rfl
  obtain ⟨hread, hjoined⟩ := hrecord _ _ blanked_spells
  obtain ⟨-, hnumber, -⟩ := hobjects numberedRecord _ rfl
  refine ⟨⟨?_, hjoined ?_ ?_, htrailing "x" ?_⟩, hnumber (-7) (.plain rfl rfl), hdecimal (-7),
    hbraced "\x7bA:1" ?_ ?_⟩
  · exact hread.trans (by decide +kernel)
  · decide
  · decide
  · decide
  · decide
  · intro members hmembers
    cases hmembers

end Linkage.Identifier
