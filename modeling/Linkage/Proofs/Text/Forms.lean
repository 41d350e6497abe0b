import Linkage.Proofs.Text.Bytes
import Linkage.Text.Form

namespace Linkage.Text

theorem splitAtEach_eq (separator : Char) (cs : List Char) :
    splitAtEach separator cs = cs.splitOn separator := by
  induction cs with
  | nil => rfl
  | cons c rest ih =>
    obtain ⟨part, parts, hparts⟩ := List.exists_cons_of_ne_nil (List.splitOn_ne_nil separator rest)
    rw [List.splitOn_cons_eq_if_modifyHead, splitAtEach, ih, hparts]
    simp only [beq_iff_eq, List.modifyHead_cons]

theorem mem_intercalate {α : Type} {x separator : α} {parts : List (List α)}
    (h : x ∈ [separator].intercalate parts) : x = separator ∨ ∃ part ∈ parts, x ∈ part := by
  induction parts with
  | nil => cases h
  | cons part rest ih =>
    cases rest with
    | nil => exact .inr ⟨part, List.mem_cons_self, by simpa using h⟩
    | cons next rest =>
      rw [List.intercalate_cons_cons, List.append_assoc, List.mem_append, List.mem_append,
        List.mem_singleton] at h
      rcases h with h | h | h
      · exact .inr ⟨part, List.mem_cons_self, h⟩
      · exact .inl h
      · exact (ih h).imp_right fun ⟨p, hp, hx⟩ => ⟨p, List.mem_cons_of_mem part hp, hx⟩

namespace Form

variable {b : Nat} {c : Char}

/-! ## Bytes -/

theorem isPlain_lt (h : isPlain b = true) : b < 0x80 := by
  simp only [isPlain, Bool.or_eq_true, Bool.and_eq_true, decide_eq_true_eq, beq_iff_eq] at h
  rcases h with (((⟨h, -⟩ | rfl) | rfl) | rfl) | rfl
  · exact h
  all_goals decide

/-- The bytes of a byte as written, with a space for each plus sign. -/
def written (b : Nat) : List Nat := ((encodeByte b).map plusToSpace).flatMap Utf8.encode

theorem written_plain : ∀ b < 0x80, isPlain b = true → written b = [b] ∧ b ≠ '%'.toNat := by
  decide +kernel

/-- A digit is a byte of its own, and has its value. -/
theorem hexChar_read : ∀ n < 16, Utf8.encode (plusToSpace (hexChar n)) = [(hexChar n).toNat] ∧
    hexValue? (hexChar n).toNat = some n := by
  decide +kernel

theorem percentDecode_cons (h : b ≠ '%'.toNat) (rest : List Nat) :
    percentDecode (b :: rest) = b :: percentDecode rest := by
  match rest with
  | [] => rfl
  | [_] => rfl
  | _ :: _ :: _ => rw [percentDecode, if_neg h]

/-- A byte is read from what is written for it, whatever follows. -/
theorem percentDecode_written (h : b < 0x100) (rest : List Nat) :
    percentDecode (written b ++ rest) = b :: percentDecode rest := by
  by_cases hplain : isPlain b = true
  · obtain ⟨hwritten, hb⟩ := written_plain b (isPlain_lt hplain) hplain
    rw [hwritten]
    exact percentDecode_cons hb rest
  by_cases hspace : b = 0x20
  · subst hspace
    exact percentDecode_cons (by decide) rest
  · obtain ⟨hhigh, hhigh'⟩ := hexChar_read (b / 16) (by omega)
    obtain ⟨hlow, hlow'⟩ := hexChar_read (b % 16) (by omega)
    have hwritten : written b =
        ['%'.toNat, (hexChar (b / 16)).toNat, (hexChar (b % 16)).toNat] := by
      have hpercent : Utf8.encode (plusToSpace '%') = ['%'.toNat] := rfl
      rw [written, encodeByte, if_neg hplain, if_neg hspace]
      simp only [List.map_cons, List.map_nil, List.flatMap_cons, List.flatMap_nil, hpercent, hhigh,
        hlow, List.append_nil, List.cons_append, List.nil_append]
    have hb : 16 * (b / 16) + b % 16 = b := Nat.div_add_mod b 16
    rw [hwritten]
    simp only [List.cons_append, List.nil_append, percentDecode, if_true, hhigh', hlow', hb]

theorem percentDecode_flatMap {bytes : List Nat} (h : ∀ b ∈ bytes, b < 0x100) :
    percentDecode (bytes.flatMap written) = bytes := by
  induction bytes with
  | nil => rfl
  | cons b rest ih =>
    obtain ⟨hb, hrest⟩ := List.forall_mem_cons.mp h
    rw [List.flatMap_cons, percentDecode_written hb, ih hrest]

/-! ## Names and values -/

theorem bytes_lt {s : String} : ∀ b ∈ s.toList.flatMap Utf8.encode, b < 0x100 := by
  intro b hb
  obtain ⟨c, _, hc⟩ := List.mem_flatMap.mp hb
  exact Utf8.lt_of_mem_encode hc

/-- A name or a value is what its written form is read as. -/
theorem decodePart_encodePart (s : String) : decodePart (encodePart s) = s := by
  have hbytes : ((encodePart s).map plusToSpace).flatMap Utf8.encode =
      (s.toList.flatMap Utf8.encode).flatMap written := by
    rw [encodePart, List.map_flatMap, List.flatMap_assoc]
    rfl
  rw [decodePart, hbytes, percentDecode_flatMap bytes_lt, Utf8.decode_encode, String.ofList_toList]

theorem all_encodeByte : ∀ b < 0x100,
    (encodeByte b).all (fun c => c != '&' && c != '=' && c != '#') = true := by
  decide +kernel

/-- No mark between names and values is written inside of one. -/
theorem ne_of_mem_encodePart {s : String} (h : c ∈ encodePart s) : c ≠ '&' ∧ c ≠ '=' ∧ c ≠ '#' := by
  obtain ⟨b, hb, hc⟩ := List.mem_flatMap.mp h
  simpa [and_assoc] using List.all_eq_true.mp (all_encodeByte b (bytes_lt b hb)) c hc

/-! ## Pairs -/

theorem decodePair_encodePair (pair : String × String) : decodePair (encodePair pair) = pair := by
  have hname : ∀ c ∈ encodePart pair.1, (c != '=') = true := fun c hc =>
    bne_iff_ne.mpr (ne_of_mem_encodePart hc).2.1
  rw [decodePair, encodePair, List.takeWhile_append_of_pos hname,
    List.dropWhile_append_of_pos hname]
  simp [decodePart_encodePart]

theorem ne_of_mem_encodePair {pair : String × String} (h : c ∈ encodePair pair) :
    c ≠ '&' ∧ c ≠ '#' := by
  rw [encodePair, List.mem_append, List.mem_cons] at h
  rcases h with h | rfl | h
  · exact ⟨(ne_of_mem_encodePart h).1, (ne_of_mem_encodePart h).2.2⟩
  · decide
  · exact ⟨(ne_of_mem_encodePart h).1, (ne_of_mem_encodePart h).2.2⟩

theorem encodePair_ne_nil (pair : String × String) : encodePair pair ≠ [] := by
  simp [encodePair]

/-- Pairs are what their query string is read as, with their order and repeats. -/
theorem decode_encode (pairs : List (String × String)) : decode (encode pairs) = pairs := by
  rw [decode, encode, String.toList_ofList, splitAtEach_eq]
  cases pairs with
  | nil => rfl
  | cons pair rest =>
    have hmark : ∀ part ∈ (pair :: rest).map encodePair, '&' ∉ part := by
      intro part hpart hmem
      obtain ⟨p, _, rfl⟩ := List.mem_map.mp hpart
      exact (ne_of_mem_encodePair hmem).1 rfl
    have hkept : ((pair :: rest).map encodePair).filter (fun part => !part.isEmpty) =
        (pair :: rest).map encodePair := by
      refine List.filter_eq_self.mpr fun part hpart => ?_
      obtain ⟨p, _, rfl⟩ := List.mem_map.mp hpart
      simp [encodePair_ne_nil]
    rw [List.splitOn_intercalate _ hmark (List.cons_ne_nil _ _), hkept, List.map_map]
    exact (List.map_congr_left fun pair _ => decodePair_encodePair pair).trans (List.map_id _)

/-- A query string has no mark in it that would end it. -/
theorem hash_notMem_encode (pairs : List (String × String)) : '#' ∉ (encode pairs).toList := by
  rw [encode, String.toList_ofList]
  intro h
  rcases mem_intercalate h with h | ⟨part, hpart, hmem⟩
  · exact absurd h (by decide)
  · obtain ⟨pair, _, rfl⟩ := List.mem_map.mp hpart
    exact (ne_of_mem_encodePair hmem).2 rfl

end Form

end Linkage.Text
