import Linkage.Text.Cutting
import Mathlib.Data.List.DropRight

namespace Linkage.Text

variable {cs : List Char} {c : Char}

/-- No blank character stands at the front, and none at the end. -/
structure Bare (cs : List Char) : Prop where
  front : ∀ c ∈ cs.head?, isBlank c = false
  back : ∀ c ∈ cs.getLast?, isBlank c = false

theorem Bare.of_all (h : ∀ c ∈ cs, isBlank c = false) : Bare cs :=
  ⟨fun c hc => h c (List.mem_of_mem_head? hc), fun c hc => h c (List.mem_of_mem_getLast? hc)⟩

/-- What stands between two texts is not at an end. -/
theorem Bare.join {as bs : List Char} (ha : Bare as) (hb : Bare bs) (hane : as ≠ [])
    (hbne : bs ≠ [])
    (between : List Char) : Bare (as ++ between ++ bs) := by
  constructor
  · rw [List.append_assoc, List.head?_append_of_ne_nil as hane]
    exact ha.front
  · rw [List.getLast?_append_of_ne_nil _ hbne]
    exact hb.back

theorem Bare.braces (inner : List Char) : Bare ('{' :: inner ++ ['}']) := by
  have hopening : Bare ['{'] := .of_all (List.forall_mem_singleton.mpr (by decide))
  have hclosing : Bare ['}'] := .of_all (List.forall_mem_singleton.mpr (by decide))
  exact hopening.join hclosing (by decide) (by decide) inner

theorem trimChars_cons (h : isBlank c = false) (cs : List Char) :
    trimChars (c :: cs) = c :: cs.rdropWhile isBlank := by
  have hnot : ¬ isBlank c = true := Bool.eq_false_iff.mp h
  rw [trimChars, List.dropWhile_cons_of_neg hnot, List.reverse_cons, List.dropWhile_append,
    List.rdropWhile]
  split
  · rename_i hnil
    rw [List.isEmpty_iff.mp hnil, List.dropWhile_cons_of_neg hnot]
    rfl
  · rw [List.reverse_append]
    rfl

/-- Only blanks are trimmed away altogether; else the first character that is not blank comes to
the front. -/
theorem trimChars_cases (cs : List Char) : cs.all isBlank = true ∧ trimChars cs = [] ∨
    ∃ c ∈ cs, ∃ rest : List Char, isBlank c = false ∧
      trimChars cs = c :: rest.rdropWhile isBlank := by
  cases hfront : cs.dropWhile isBlank with
  | nil =>
    refine .inl ⟨List.all_eq_true.mpr (List.dropWhile_eq_nil_iff.mp hfront), ?_⟩
    rw [trimChars, hfront]
    rfl
  | cons c rest =>
    have hne : cs.dropWhile isBlank ≠ [] := by
      rw [hfront]
      exact List.cons_ne_nil c rest
    have hc : isBlank c = false := by
      have hhead := List.head_dropWhile_not isBlank hne
      simpa [hfront] using hhead
    have hmem : c ∈ cs := (List.dropWhile_suffix isBlank).subset (by simp [hfront])
    refine .inr ⟨c, hmem, rest, hc, ?_⟩
    rw [← trimChars_cons hc, trimChars, trimChars, hfront,
      List.dropWhile_cons_of_neg (Bool.eq_false_iff.mp hc)]

theorem bare_cons {rest : List Char} (h : isBlank c = false)
    (hback : ∀ d ∈ rest.getLast?, isBlank d = false) : Bare (c :: rest) := by
  refine ⟨fun d hd => by rwa [← Option.some.inj hd], fun d hd => ?_⟩
  cases hlast : rest.getLast? with
  | none =>
    rw [List.getLast?_eq_none_iff.mp hlast] at hd
    rwa [← Option.some.inj hd]
  | some e =>
    rw [List.getLast?_cons, hlast, Option.getD_some] at hd
    rw [← Option.some.inj hd]
    exact hback e hlast

theorem bare_trimChars (cs : List Char) : Bare (trimChars cs) := by
  rcases trimChars_cases cs with ⟨-, hnil⟩ | ⟨c, -, rest, hc, heq⟩
  · rw [hnil]
    exact ⟨nofun, nofun⟩
  · rw [heq]
    refine bare_cons hc fun d hd => ?_
    obtain ⟨hne, rfl⟩ := List.mem_getLast?_eq_getLast hd
    exact Bool.eq_false_iff.mpr (List.rdropWhile_last_not isBlank rest hne)

theorem trimChars_eq_self : trimChars cs = cs ↔ Bare cs := by
  constructor
  · intro h
    rw [← h]
    exact bare_trimChars cs
  · intro h
    cases cs with
    | nil => rfl
    | cons c rest =>
      rw [trimChars_cons (h.front c rfl)]
      refine congrArg (c :: ·) (List.rdropWhile_eq_self_iff.mpr fun hne => ?_)
      refine Bool.eq_false_iff.mp (h.back (rest.getLast hne) ?_)
      rw [List.getLast?_cons, List.getLast?_eq_some_getLast hne]
      rfl

theorem trim_eq_self {s : String} : trim s = s ↔ Bare s.toList := by
  rw [← trimChars_eq_self, ← String.toList_inj, trim, String.toList_ofList]

theorem bare_of_trimmed {s : String} (h : trim s = s ∧ s ≠ "") : Bare s.toList ∧ s.toList ≠ [] :=
  ⟨trim_eq_self.mp h.1, fun hnil => h.2 (String.toList_inj.mp hnil)⟩

theorem trim_trim (s : String) : trim (trim s) = trim s := by
  rw [trim_eq_self, trim, String.toList_ofList]
  exact bare_trimChars s.toList

/-- Blanks around a bare text are trimmed away. -/
theorem trimChars_framed {before core after : List Char} (hbefore : ∀ c ∈ before, isBlank c = true)
    (hcore : Bare core) (hne : core ≠ []) (hafter : ∀ c ∈ after, isBlank c = true) :
    trimChars (before ++ core ++ after) = core := by
  have hfront : (before ++ core ++ after).dropWhile isBlank = core ++ after := by
    rw [List.append_assoc, List.dropWhile_append_of_pos hbefore]
    obtain ⟨c, rest, rfl⟩ := List.exists_cons_of_ne_nil hne
    exact List.dropWhile_cons_of_neg (Bool.eq_false_iff.mp (hcore.front c rfl))
  have hback : (core ++ after).rdropWhile isBlank = core.rdropWhile isBlank := by
    rw [List.rdropWhile, List.reverse_append,
      List.dropWhile_append_of_pos fun c hc => hafter c (List.mem_reverse.mp hc)]
    rfl
  rw [trimChars, hfront]
  refine hback.trans (List.rdropWhile_eq_self_iff.mpr fun hne => ?_)
  exact Bool.eq_false_iff.mp (hcore.back _ (List.getLast?_eq_some_getLast hne))

/-- Only blanks are trimmed away. -/
theorem trimChars_parts (cs : List Char) : ∃ before after, cs = before ++ trimChars cs ++ after ∧
    (∀ c ∈ before, isBlank c = true) ∧ ∀ c ∈ after, isBlank c = true := by
  let front := cs.dropWhile isBlank
  have hfront : cs = cs.takeWhile isBlank ++ front := List.takeWhile_append_dropWhile.symm
  have hback : front = trimChars cs ++ (front.reverse.takeWhile isBlank).reverse := by
    rw [trimChars, ← List.reverse_append, List.takeWhile_append_dropWhile, List.reverse_reverse]
  refine ⟨cs.takeWhile isBlank, (front.reverse.takeWhile isBlank).reverse, ?_, ?_, ?_⟩
  · rw [List.append_assoc, ← hback]
    exact hfront
  · exact fun c hc => List.mem_takeWhile_imp hc
  · exact fun c hc => List.mem_takeWhile_imp (List.mem_reverse.mp hc)

/-- Blanks around two texts are trimmed away, and nothing between them. -/
theorem trimChars_join {as bs : List Char} (ha : trimChars as ≠ []) (hb : trimChars bs ≠ [])
    (between : List Char) : ∃ after before,
      (∀ c ∈ after, isBlank c = true) ∧ (∀ c ∈ before, isBlank c = true) ∧
      trimChars (as ++ between ++ bs) =
        trimChars as ++ (after ++ between ++ before) ++ trimChars bs := by
  obtain ⟨front, after, has, hfront, hafter⟩ := trimChars_parts as
  obtain ⟨before, back, hbs, hbefore, hback⟩ := trimChars_parts bs
  refine ⟨after, before, hafter, hbefore, ?_⟩
  have hbare := (bare_trimChars as).join (bare_trimChars bs) ha hb (after ++ between ++ before)
  have hne : trimChars as ++ (after ++ between ++ before) ++ trimChars bs ≠ [] := by
    simp [ha]
  have hparts : as ++ between ++ bs =
      front ++ (trimChars as ++ (after ++ between ++ before) ++ trimChars bs) ++ back := by
    conv => lhs; rw [has, hbs]
    simp only [List.append_assoc]
  rw [hparts, trimChars_framed hfront hbare hne hback]

theorem trimChars_eq_nil : trimChars cs = [] ↔ cs.all isBlank = true := by
  rcases trimChars_cases cs with ⟨hall, hnil⟩ | ⟨c, hmem, rest, hc, heq⟩
  · exact iff_of_true hnil hall
  · rw [heq]
    refine iff_of_false (List.cons_ne_nil _ _) fun hall => ?_
    exact Bool.eq_false_iff.mp hc (List.all_eq_true.mp hall c hmem)

theorem isBlankText_iff {s : String} : isBlankText s = true ↔ trim s = "" := by
  rw [isBlankText, ← trimChars_eq_nil, trim, ← String.toList_inj, String.toList_ofList]
  rfl

theorem isBlankText_eq_false {s : String} : isBlankText s = false ↔ trimChars s.toList ≠ [] := by
  rw [← Bool.not_eq_true, isBlankText, ne_eq, trimChars_eq_nil]

end Linkage.Text
