import Linkage.Json.Value
import Linkage.Proofs.Json.Framing
import Linkage.Proofs.Text.Trimming

/-!
Texts that enclose each other. A quoted text is shorter than the text in which it stands, so a text
has fewer layers than characters.
-/

namespace Linkage.Json

open Text (trim)

/-! ## The length of quoted texts -/

namespace Lexer

variable {l l' : Lexer} {c : Char} {cs : List Char} {tokens : List Token} {n : Nat}

/-- What has been read of quoted texts is no longer than the text so far. -/
structure Within (n : Nat) (l : Lexer) : Prop where
  mode : l.mode.extent ≤ n
  tokens : ∀ t ∈ l.tokens, t.pieces.length < n

theorem Opens.within (h : Opens tokens c l') (ht : ∀ t ∈ tokens, t.pieces.length < n + 1) :
    l'.Within (n + 1) := by
  cases h with
  | space => exact ⟨Nat.zero_le _, ht⟩
  | mark hmark =>
    refine ⟨Nat.zero_le _, List.forall_mem_cons.mpr ⟨?_, ht⟩⟩
    rw [(Token.mark?_isMark hmark).2]
    exact Nat.succ_pos n
  | token _ _ hextent => exact ⟨Nat.le_trans hextent (Nat.le_add_left 1 n), ht⟩

/-- One character makes what has been read longer by one at most. -/
theorem Turns.within (h : Turns c l l') (hl : l.Within n) : l'.Within (n + 1) := by
  obtain ⟨hmode, htokens⟩ := hl
  have hlonger : ∀ t ∈ l.tokens, t.pieces.length < n + 1 := fun t ht =>
    Nat.lt_succ_of_lt (htokens t ht)
  cases h with
  | opens ho => exact ho.within hlonger
  | ends hrun ho =>
    refine ho.within (List.forall_mem_cons.mpr ⟨?_, hlonger⟩)
    rw [(Token.ofRun?_leaf hrun).2]
    exact Nat.succ_pos n
  | @closes _ read =>
    refine ⟨Nat.zero_le _, List.forall_mem_cons.mpr ⟨?_, hlonger⟩⟩
    have hread : read.length + 1 ≤ n := hmode
    simp only [Token.pieces, List.length_reverse]
    omega
  | stays _ _ hextent =>
    refine ⟨Nat.le_trans hextent ?_, hlonger⟩
    exact Nat.succ_le_succ hmode

theorem run_within (h : cs.foldlM step l = some l') (hl : l.Within n) :
    l'.Within (n + cs.length) := by
  induction cs generalizing l n with
  | nil =>
    cases h
    exact hl
  | cons c rest ih =>
    rw [List.foldlM_cons] at h
    obtain ⟨next, hstep, hrest⟩ := Option.bind_eq_some_iff.mp h
    have hwithin := ih hrest ((step_turns hstep).within hl)
    rwa [Nat.add_assoc, Nat.add_comm 1] at hwithin

end Lexer

/-- The quoted texts among the tokens of a text are shorter than the text. -/
theorem Token.ofChars?_within {cs : List Char} {ts : List Token} (h : ofChars? cs = some ts) :
    ∀ t ∈ ts, t.pieces.length < cs.length := by
  obtain ⟨l, hrun, hfinish⟩ := ofChars?_eq_some.mp h
  have hstart : Lexer.start.Within 0 := ⟨Nat.le_refl 0, nofun⟩
  obtain ⟨-, htokens⟩ := Lexer.run_within hrun hstart
  rw [Nat.zero_add] at htokens
  unfold Lexer.finish at hfinish
  split at hfinish
  · cases hfinish
    exact fun t ht => htokens t (List.mem_reverse.mp ht)
  · rename_i read hmode
    obtain ⟨t, ht, rfl⟩ := Option.map_eq_some_iff.mp hfinish
    have hpos : 0 < cs.length := by
      refine List.length_pos_iff.mpr fun hnil => ?_
      subst hnil
      cases hrun
      cases hmode
    intro u hu
    rcases List.mem_cons.mp (List.mem_reverse.mp hu) with rfl | hu
    · rw [(ofRun?_leaf ht).2]
      exact hpos
    · exact htokens u hu
  · cases hfinish

theorem Token.isBlank_of_isSpace {c : Char} (h : isSpace c = true) : Text.isBlank c = true := by
  simp only [isSpace, Bool.or_eq_true, beq_iff_eq] at h
  rcases h with ((rfl | rfl) | rfl) | rfl <;> decide

namespace Tree

variable {n : Nat}

/-- Every quoted text in the tree, keys aside, has fewer than `n` pieces. -/
inductive Within (n : Nat) : Tree → Prop
  | null : Within n .null
  | bool (b : Bool) : Within n (.bool b)
  | number (m : Numeral) : Within n (.number m)
  | quoted {pieces : List Piece} : pieces.length < n → Within n (.quoted pieces)
  | array {items : List Tree} : (∀ t ∈ items, Within n t) → Within n (.array items)
  | object {members : List (List Piece × Tree)} : (∀ m ∈ members, Within n m.2) →
      Within n (.object members)

def Frame.Within (n : Nat) : Frame → Prop
  | .array items => ∀ t ∈ items, t.Within n
  | .object members _ => ∀ m ∈ members, m.2.Within n

/-- What has been built is within a length, with the containers that are still open. -/
def Builder.Within (n : Nat) : Builder → Prop
  | .value frames => ∀ f ∈ frames, f.Within n
  | .item frames => ∀ f ∈ frames, f.Within n
  | .member frames => ∀ f ∈ frames, f.Within n
  | .key members frames => (∀ m ∈ members, m.2.Within n) ∧ ∀ f ∈ frames, f.Within n
  | .colon members _ frames => (∀ m ∈ members, m.2.Within n) ∧ ∀ f ∈ frames, f.Within n
  | .after v frames => v.Within n ∧ ∀ f ∈ frames, f.Within n

namespace Builder

variable {b b' : Builder} {t : Token} {ts : List Token}

theorem begin?_within {frames : List Frame} (hframes : ∀ f ∈ frames, f.Within n)
    (ht : t.pieces.length < n) (h : begin? frames t = some b) : b.Within n := by
  cases t <;> cases h
  · exact hframes
  · exact hframes
  · exact ⟨.null, hframes⟩
  · exact ⟨.bool _, hframes⟩
  · exact ⟨.number _, hframes⟩
  · exact ⟨.quoted ht, hframes⟩

theorem follow?_within {v : Tree} {frames : List Frame} (hv : v.Within n)
    (hframes : ∀ f ∈ frames, f.Within n) (h : follow? v frames t = some b) : b.Within n := by
  unfold follow? at h
  split at h
  · cases h
    obtain ⟨hitems, hrest⟩ := List.forall_mem_cons.mp hframes
    exact List.forall_mem_cons.mpr ⟨List.forall_mem_cons.mpr ⟨hv, hitems⟩, hrest⟩
  · cases h
    obtain ⟨hitems, hrest⟩ := List.forall_mem_cons.mp hframes
    refine ⟨.array fun t ht => ?_, hrest⟩
    exact List.forall_mem_cons.mpr ⟨hv, hitems⟩ t (List.mem_reverse.mp ht)
  · cases h
    obtain ⟨hmembers, hrest⟩ := List.forall_mem_cons.mp hframes
    refine ⟨fun m hm => ?_, hrest⟩
    rcases List.mem_cons.mp hm with rfl | hm
    · exact hv
    · exact hmembers m hm
  · cases h
    obtain ⟨hmembers, hrest⟩ := List.forall_mem_cons.mp hframes
    refine ⟨.object fun m hm => ?_, hrest⟩
    rcases List.mem_cons.mp (List.mem_reverse.mp hm) with rfl | hm
    · exact hv
    · exact hmembers m hm
  · cases h

theorem step_within (hb : b.Within n) (ht : t.pieces.length < n) (h : b.step t = some b') :
    b'.Within n := by
  cases b with
  | value frames => exact begin?_within hb ht h
  | item frames =>
    by_cases hend : t = .endArray
    · subst hend
      cases h
      exact ⟨.array fun _ ht => absurd ht List.not_mem_nil, hb⟩
    · rw [step_item hend] at h
      have hopen : Frame.Within n (.array []) := fun _ ht => absurd ht List.not_mem_nil
      exact begin?_within (List.forall_mem_cons.mpr ⟨hopen, hb⟩) ht h
  | member frames =>
    cases t <;> cases h
    · exact ⟨.object nofun, hb⟩
    · exact ⟨nofun, hb⟩
  | key members frames =>
    cases t <;> cases h
    exact hb
  | colon members key frames =>
    cases t <;> cases h
    exact List.forall_mem_cons.mpr hb
  | after v frames => exact follow?_within hb.1 hb.2 h

theorem run_within (hb : b.Within n) (hts : ∀ t ∈ ts, t.pieces.length < n)
    (h : ts.foldlM step b = some b') : b'.Within n := by
  induction ts generalizing b with
  | nil =>
    cases h
    exact hb
  | cons t rest ih =>
    obtain ⟨ht, hrest⟩ := List.forall_mem_cons.mp hts
    rw [List.foldlM_cons] at h
    obtain ⟨next, hstep, hrun⟩ := Option.bind_eq_some_iff.mp h
    exact ih (step_within hb ht hstep) hrest hrun

end Builder

/-- The quoted texts in the tree of a text are shorter than the text. -/
theorem within_of_ofChars {cs : List Char} {t : Tree}
    (h : (Token.ofChars? cs).bind ofTokens? = some t) : t.Within cs.length := by
  obtain ⟨ts, hts, htree⟩ := Option.bind_eq_some_iff.mp h
  exact (Builder.run_within (b := .value []) nofun (Token.ofChars?_within hts)
    (ofTokens?_eq_some.mp htree)).1

/-- The text of an object begins with a brace and is read alike without the blanks around it. -/
theorem object_trim {s : String} {members : List (List Piece × Tree)}
    (h : ofText? s = some (.object members)) :
    ofText? (trim s) = some (.object members) ∧ (trim s).toList.head? = some '{' := by
  obtain ⟨ws, inner, ws', hchars, hws, hws', htokens⟩ := object_framed h
  have htrim : (trim s).toList = '{' :: inner ++ ['}'] := by
    rw [trim, String.toList_ofList, hchars]
    exact Text.trimChars_framed (fun c hc => Token.isBlank_of_isSpace (hws c hc)) (.braces inner)
      (List.cons_ne_nil _ _) fun c hc => Token.isBlank_of_isSpace (hws' c hc)
  refine ⟨?_, by rw [htrim]; rfl⟩
  rw [← h, ofText?, ofText?, htrim, htokens]

end Tree

/-! ## Layers -/

/-- No two characters come of one piece. -/
theorem Quoted.length_decode {pieces : List Piece} {cs : List Char} (h : decode pieces = some cs) :
    cs.length ≤ pieces.length := by
  fun_induction decode pieces generalizing cs with
  | case1 =>
    cases h
    exact Nat.le_refl 0
  | case2 c rest ih | case8 unit rest _ _ ih =>
    obtain ⟨read, hread, rfl⟩ := Option.map_eq_some_iff.mp h
    exact Nat.succ_le_succ (ih hread)
  | case3 high low rest _ _ ih =>
    obtain ⟨read, hread, rfl⟩ := Option.map_eq_some_iff.mp h
    exact Nat.le_succ_of_le (Nat.succ_le_succ (ih hread))
  | case6 high low rest _ _ ih =>
    obtain ⟨read, hread, rfl⟩ := Option.map_eq_some_iff.mp h
    exact Nat.succ_le_succ (ih hread)
  | case4 | case5 | case7 => cases h

namespace Value

variable {n depth : Nat} {t : Tree} {read read' : String → Option Value}

/-- An enclosed text is shorter than what it stands in. -/
theorem onlyText?_within {members : List (List Piece × Tree)} {s : String}
    (hmembers : ∀ m ∈ members, m.2.Within n) (h : onlyText? members = some s) : s.length < n := by
  unfold onlyText? at h
  split at h
  · rename_i key pieces
    obtain ⟨cs, hcs, rfl⟩ := Option.map_eq_some_iff.mp h
    rcases hmembers _ List.mem_cons_self with _ | _ | _ | hlt
    rw [String.length_ofList]
    exact Nat.lt_of_le_of_lt (Quoted.length_decode hcs) hlt
  · cases h

theorem mapM_congr {α β : Type} {f g : α → Option β} {items : List α} (h : ∀ a ∈ items, f a = g a) :
    items.mapM f = items.mapM g := by
  induction items with
  | nil => rfl
  | cons a rest ih =>
    obtain ⟨ha, hrest⟩ := List.forall_mem_cons.mp h
    rw [List.mapM_cons, List.mapM_cons, ha, ih hrest]

/-- A tree is read alike by readers that agree on the texts that it can enclose. -/
theorem ofTree?_congr (h : ∀ s : String, s.length < n → read s = read' s) (ht : t.Within n) :
    ofTree? read depth t = ofTree? read' depth t := by
  induction ht generalizing depth with
  | null | bool | number | quoted => rw [ofTree?, ofTree?]
  | @array items _ ih =>
    cases depth with
    | zero => rw [ofTree?, ofTree?]
    | succ depth => rw [ofTree?, ofTree?, mapM_congr fun t ht => ih t ht]
  | @object members hmembers ih =>
    cases depth with
    | zero => rw [ofTree?, ofTree?]
    | succ depth =>
      rw [ofTree?, ofTree?]
      by_cases henclosing : isEnclosing members = true
      · rw [if_pos henclosing, if_pos henclosing]
        exact Option.bind_congr fun s hs => h s (onlyText?_within hmembers hs)
      · rw [if_neg henclosing, if_neg henclosing]
        refine congrArg _ (mapM_congr fun m hm => ?_)
        rw [ih m hm]

/-- More layers than the text has characters change nothing. -/
theorem ofLayers?_congr {layers layers' : Nat} {s : String} (h : s.length < layers)
    (h' : s.length < layers') : ofLayers? layers s = ofLayers? layers' s := by
  induction layers generalizing layers' s with
  | zero => omega
  | succ layers ih =>
    cases layers' with
    | zero => omega
    | succ layers' =>
      rw [ofLayers?, ofLayers?]
      -- An enclosed text is shorter, and has a layer less.
      refine Option.bind_congr fun t ht => ofTree?_congr (fun s' hs' => ?_)
        (Tree.within_of_ofChars ht)
      rw [String.length_toList] at hs'
      exact ih (by omega) (by omega)

/-- Only the tree of an object is read as an object. -/
theorem tree_of_ofString? {s : String} {entries : List (String × Value)}
    (h : ofString? s = some (.object entries)) :
    ∃ members : List (List Piece × Tree), Tree.ofText? s = some (.object members) := by
  rw [ofString?, ofLayers?] at h
  obtain ⟨t, ht, hvalue⟩ := Option.bind_eq_some_iff.mp h
  cases t with
  | object members => exact ⟨members, ht⟩
  | array => simp [ofTree?, depthLimit] at hvalue
  | _ => simp [ofTree?] at hvalue

/-- An object is read from its trimmed text as well. -/
theorem ofString?_trim {s : String} {entries : List (String × Value)}
    (h : ofString? s = some (.object entries)) : ofString? (trim s) = some (.object entries) := by
  obtain ⟨members, htree⟩ := tree_of_ofString? h
  have hlength : (trim s).length ≤ s.length := by
    obtain ⟨before, after, hparts, -⟩ := Text.trimChars_parts s.toList
    have := congrArg List.length hparts
    simp only [List.length_append, String.length_toList] at this
    rw [trim, String.length_ofList]
    omega
  rw [← h, ofString?, ofLayers?_congr (Nat.lt_succ_self _) (Nat.lt_succ_of_le hlength), ofString?,
    ofLayers?, ofLayers?, (Tree.object_trim htree).1, htree]

end Value

end Linkage.Json
