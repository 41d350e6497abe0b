import Linkage.Json.Tree
import Mathlib.Data.List.Induction

/-!
Objects stand between braces, and nothing but spaces may follow them.

* `Lexer.Turns`: all that a lexer can do with one character.
* `Lexer.pending_leads`: within a word, a numeral or a quoted text, that comes before anything else.
* `Tree.object_framed`, `Tree.object_trailing`: what stands around an object.
-/

namespace Linkage.Json

namespace Token

/-- A single character that is a token of its own, like a brace. -/
def isMark : Token → Bool
  | .null => false
  | .bool _ => false
  | .number _ => false
  | .quoted _ => false
  | _ => true

/-- What stands between the quotes of a quoted text. -/
def pieces : Token → List Piece
  | .quoted pieces => pieces
  | _ => []

theorem ofRun?_leaf {cs : List Char} {t : Token} (h : ofRun? cs = some t) :
    t.isMark = false ∧ t.pieces = [] := by
  unfold ofRun? at h
  split at h
  iterate 3
    cases h
    exact ⟨rfl, rfl⟩
  obtain ⟨n, -, rfl⟩ := Option.map_eq_some_iff.mp h
  exact ⟨rfl, rfl⟩

theorem mark?_isMark {c : Char} {m : Token} (h : mark? c = some m) :
    m.isMark = true ∧ m.pieces = [] := by
  unfold mark? at h
  split at h <;> cases h <;> exact ⟨rfl, rfl⟩

theorem mark?_beginObject {c : Char} (h : mark? c = some .beginObject) : c = '{' := by
  unfold mark? at h
  split at h <;> cases h
  rfl

theorem mark?_endObject {c : Char} (h : mark? c = some .endObject) : c = '}' := by
  unfold mark? at h
  split at h <;> cases h
  rfl

end Token

/-- One more than the pieces of a quoted text that have been read. -/
def Mode.extent : Mode → Nat
  | .between => 0
  | .run _ => 0
  | .quoted read => read.length + 1
  | .backslash read => read.length + 1
  | .code read _ _ => read.length + 1

namespace Lexer

variable {l l' : Lexer} {c : Char} {cs : List Char} {tokens ts : List Token}

/-! ## One character -/

/-- What a character begins that does not continue the token before it. -/
inductive Opens (tokens : List Token) (c : Char) : Lexer → Prop
  | space : Token.isSpace c = true → Opens tokens c ⟨tokens, .between⟩
  | mark {m : Token} : Token.mark? c = some m → Opens tokens c ⟨m :: tokens, .between⟩
  | token {mode : Mode} : Token.isSpace c = false → mode ≠ .between → mode.extent ≤ 1 →
      Opens tokens c ⟨tokens, mode⟩

theorem open?_opens (tokens : List Token) (c : Char) : Opens tokens c (open? tokens c) := by
  unfold open?
  split
  · rename_i hspace
    exact .space hspace
  · rename_i hspace
    have hvisible : Token.isSpace c = false := Bool.eq_false_iff.mpr hspace
    split
    · exact .token hvisible nofun (Nat.le_refl 1)
    · split
      · rename_i m hmark
        exact .mark hmark
      · exact .token hvisible nofun (Nat.zero_le 1)

theorem opens_of_step (h : step ⟨tokens, .between⟩ c = some l') : Opens tokens c l' := by
  cases h
  exact open?_opens tokens c

/-- What a lexer does with a character: between tokens it begins something new. A run ends before
what is not part of it, and a quoted text with its quote. Else the lexer stays within its token. -/
inductive Turns (c : Char) : Lexer → Lexer → Prop
  | opens {tokens : List Token} {l' : Lexer} : Opens tokens c l' → Turns c ⟨tokens, .between⟩ l'
  | ends {tokens : List Token} {read : List Char} {t : Token} {l' : Lexer} :
      Token.ofRun? read.reverse = some t → Opens (t :: tokens) c l' →
        Turns c ⟨tokens, .run read⟩ l'
  | closes {tokens : List Token} {read : List Piece} :
      Turns c ⟨tokens, .quoted read⟩ ⟨.quoted read.reverse :: tokens, .between⟩
  | stays {tokens : List Token} {mode mode' : Mode} : mode ≠ .between → mode' ≠ .between →
      mode'.extent ≤ mode.extent + 1 → Turns c ⟨tokens, mode⟩ ⟨tokens, mode'⟩

/-- One character takes a lexer nowhere else. -/
theorem step_turns (h : l.step c = some l') : Turns c l l' := by
  obtain ⟨tokens, mode⟩ := l
  cases mode with
  | between =>
    cases h
    exact .opens (open?_opens tokens c)
  | run read =>
    simp only [step] at h
    split at h
    · obtain ⟨t, ht, rfl⟩ := Option.map_eq_some_iff.mp h
      exact .ends ht (open?_opens _ c)
    · cases h
      exact .stays nofun nofun (Nat.zero_le _)
  | quoted read =>
    simp only [step] at h
    split at h
    · cases h
      exact .closes
    · split at h
      · cases h
        exact .stays nofun nofun (Nat.le_succ _)
      · split at h
        · cases h
        · cases h
          exact .stays nofun nofun (Nat.le_refl _)
  | backslash read =>
    simp only [step] at h
    split at h
    · cases h
      exact .stays nofun nofun (Nat.le_succ _)
    · obtain ⟨e, -, rfl⟩ := Option.map_eq_some_iff.mp h
      exact .stays nofun nofun (Nat.le_refl _)
  | code read digits unit =>
    obtain ⟨d, -, rfl⟩ := Option.map_eq_some_iff.mp h
    dsimp only
    split
    · exact .stays nofun nofun (Nat.le_refl _)
    · exact .stays nofun nofun (Nat.le_succ _)

/-! ## Many characters -/

theorem Opens.grows (h : Opens tokens c l') : tokens <:+ l'.tokens := by
  cases h with
  | space | token => exact List.suffix_refl _
  | mark => exact List.suffix_cons _ _

theorem Turns.grows (h : Turns c l l') : l.tokens <:+ l'.tokens := by
  cases h with
  | opens ho => exact ho.grows
  | ends _ ho => exact (List.suffix_cons _ _).trans ho.grows
  | closes => exact List.suffix_cons _ _
  | stays => exact List.suffix_refl _

/-- Whatever text is still to come, the tokens that have been read are the first ones. -/
theorem run_leads (hrun : cs.foldlM step l = some l') (hfinish : l'.finish = some ts) :
    l.tokens.reverse <+: ts := by
  induction cs generalizing l with
  | nil =>
    cases hrun
    unfold finish at hfinish
    split at hfinish
    · cases hfinish
      exact List.prefix_refl _
    · obtain ⟨t, -, rfl⟩ := Option.map_eq_some_iff.mp hfinish
      rw [List.reverse_cons]
      exact List.prefix_append _ _
    · cases hfinish
  | cons c rest ih =>
    rw [List.foldlM_cons] at hrun
    obtain ⟨next, hstep, hrest⟩ := Option.bind_eq_some_iff.mp hrun
    exact (List.reverse_prefix.mpr (step_turns hstep).grows).trans (ih hrest)

theorem next_leads {t : Token} (ht : t :: tokens <:+ l.tokens) (h : l.tokens.reverse <+: ts) :
    tokens.reverse ++ [t] <+: ts := by
  rw [← List.reverse_cons]
  exact (List.reverse_prefix.mpr ht).trans h

/-- A token that has begun comes next. -/
theorem pending_leads (hmode : l.mode ≠ .between) (hrun : cs.foldlM step l = some l')
    (hfinish : l'.finish = some ts) : ∃ t, t.isMark = false ∧ l.tokens.reverse ++ [t] <+: ts := by
  induction cs generalizing l with
  | nil =>
    cases hrun
    unfold finish at hfinish
    split at hfinish
    · rename_i hbetween
      exact absurd hbetween hmode
    · obtain ⟨t, ht, rfl⟩ := Option.map_eq_some_iff.mp hfinish
      rw [List.reverse_cons]
      exact ⟨t, (Token.ofRun?_leaf ht).1, List.prefix_refl _⟩
    · cases hfinish
  | cons c rest ih =>
    rw [List.foldlM_cons] at hrun
    obtain ⟨next, hstep, hrest⟩ := Option.bind_eq_some_iff.mp hrun
    have hlead := run_leads hrest hfinish
    cases step_turns hstep with
    | opens => exact absurd rfl hmode
    | @ends _ _ t _ ht ho => exact ⟨t, (Token.ofRun?_leaf ht).1, next_leads ho.grows hlead⟩
    | closes => exact ⟨_, rfl, next_leads (List.suffix_refl _) hlead⟩
    | stays _ hmode' =>
      have hpending := ih (l := ⟨_, _⟩) hmode' hrest
      exact hpending

/-- Between tokens, a text without tokens is made of spaces. -/
theorem spaces_of_silent (hrun : cs.foldlM step ⟨tokens, .between⟩ = some l')
    (hfinish : l'.finish = some tokens.reverse) : ∀ c ∈ cs, Token.isSpace c = true := by
  have hlonger {t : Token} (h : tokens.reverse ++ [t] <+: tokens.reverse) : False := by
    have hlength := h.length_le
    simp only [List.length_append, List.length_reverse, List.length_singleton] at hlength
    omega
  induction cs with
  | nil => exact nofun
  | cons c rest ih =>
    rw [List.foldlM_cons] at hrun
    obtain ⟨next, hstep, hrest⟩ := Option.bind_eq_some_iff.mp hrun
    cases opens_of_step hstep with
    | space hspace => exact List.forall_mem_cons.mpr ⟨hspace, ih hrest⟩
    | mark => exact (hlonger (next_leads (List.suffix_refl _) (run_leads hrest hfinish))).elim
    | token _ hmode =>
      obtain ⟨t, -, ht⟩ := pending_leads (l := ⟨_, _⟩) hmode hrest hfinish
      exact (hlonger ht).elim

/-! ## Braces -/

/-- A lexer whose last token is a mark stands between tokens. -/
theorem between_of_last {m : Token} (hfinish : l.finish = some ts) (hlast : ts.getLast? = some m)
    (hm : m.isMark = true) :
    ∃ tokens, l = ⟨m :: tokens, .between⟩ ∧ ts = (m :: tokens).reverse := by
  obtain ⟨tokens, mode⟩ := l
  unfold finish at hfinish
  split at hfinish
  · rename_i hbetween
    cases hfinish
    rw [List.getLast?_reverse] at hlast
    obtain ⟨rest, hrest⟩ := List.head?_eq_some_iff.mp hlast
    cases hbetween
    cases hrest
    exact ⟨rest, rfl, rfl⟩
  · obtain ⟨t, ht, rfl⟩ := Option.map_eq_some_iff.mp hfinish
    rw [List.getLast?_reverse, List.head?_cons] at hlast
    cases hlast
    cases (Token.ofRun?_leaf ht).1.symm.trans hm
  · cases hfinish

/-- The character that ends such a text is the mark, or a space after it. -/
theorem step_last {m : Token} (hstep : l.step c = some l') (hfinish : l'.finish = some ts)
    (hlast : ts.getLast? = some m) (hm : m.isMark = true) :
    Token.mark? c = some m ∨ Token.isSpace c = true ∧ l.finish = some ts := by
  obtain ⟨tokens, rfl, rfl⟩ := between_of_last hfinish hlast hm
  cases step_turns hstep with
  | opens ho =>
    cases ho with
    | space hspace => exact .inr ⟨hspace, rfl⟩
    | mark hmark => exact .inl hmark
    | token _ hmode => exact absurd rfl hmode
  | ends ht ho =>
    cases ho with
    | space => cases (Token.ofRun?_leaf ht).1.symm.trans hm
    | mark hmark => exact .inl hmark
    | token _ hmode => exact absurd rfl hmode
  | closes => cases hm
  | stays _ hmode => exact absurd rfl hmode

end Lexer

namespace Token

variable {cs : List Char} {ts : List Token}

theorem ofChars?_eq_some : ofChars? cs = some ts ↔
    ∃ l, cs.foldlM Lexer.step Lexer.start = some l ∧ l.finish = some ts := by
  rw [ofChars?, Option.bind_eq_some_iff]

/-- A text whose first token is a brace begins with it, after spaces that may be left out. -/
theorem ofChars?_front (h : ofChars? cs = some ts) (hfirst : ts.head? = some .beginObject) :
    ∃ ws core, cs = ws ++ '{' :: core ∧ (∀ c ∈ ws, isSpace c = true) ∧
      ofChars? ('{' :: core) = some ts := by
  induction cs with
  | nil =>
    cases h
    cases hfirst
  | cons c rest ih =>
    obtain ⟨l, hrun, hfinish⟩ := ofChars?_eq_some.mp h
    rw [List.foldlM_cons] at hrun
    obtain ⟨next, hstep, hrest⟩ := Option.bind_eq_some_iff.mp hrun
    have hlead {t : Token} (ht : [t] <+: ts) : t = .beginObject := by
      obtain ⟨others, rfl⟩ := ht
      exact Option.some.inj hfirst
    have hopens : Lexer.Opens [] c next := Lexer.opens_of_step hstep
    cases hopens with
    | space hspace =>
      obtain ⟨ws, core, rfl, hws, hcore⟩ := ih (ofChars?_eq_some.mpr ⟨l, hrest, hfinish⟩)
      exact ⟨c :: ws, core, rfl, List.forall_mem_cons.mpr ⟨hspace, hws⟩, hcore⟩
    | mark hmark =>
      have hbrace := hlead (Lexer.run_leads hrest hfinish)
      obtain rfl := mark?_beginObject (hbrace ▸ hmark)
      exact ⟨[], rest, rfl, nofun, h⟩
    | token _ hmode =>
      obtain ⟨t, hleaf, ht⟩ := Lexer.pending_leads (l := ⟨_, _⟩) hmode hrest hfinish
      rw [hlead ht] at hleaf
      cases hleaf

/-- A text whose last token is a brace ends with it, before spaces that may be left out. -/
theorem ofChars?_back (h : ofChars? cs = some ts) (hlast : ts.getLast? = some .endObject) :
    ∃ core ws, cs = core ++ '}' :: ws ∧ (∀ c ∈ ws, isSpace c = true) ∧
      ofChars? (core ++ ['}']) = some ts := by
  induction cs using List.reverseRecOn with
  | nil =>
    cases h
    cases hlast
  | append_singleton cs c ih =>
    obtain ⟨l', hrun, hfinish⟩ := ofChars?_eq_some.mp h
    rw [List.foldlM_append] at hrun
    obtain ⟨l, hbefore, hstep⟩ := Option.bind_eq_some_iff.mp hrun
    rw [List.foldlM_cons] at hstep
    obtain ⟨_, hstep, hdone⟩ := Option.bind_eq_some_iff.mp hstep
    cases hdone
    rcases Lexer.step_last hstep hfinish hlast rfl with hmark | ⟨hspace, hfinish'⟩
    · obtain rfl := mark?_endObject hmark
      exact ⟨cs, [], rfl, nofun, h⟩
    · obtain ⟨core, ws, rfl, hws, hcore⟩ := ih (ofChars?_eq_some.mpr ⟨l, hbefore, hfinish'⟩)
      refine ⟨core, ws ++ [c], by simp, fun d hd => ?_, hcore⟩
      rcases List.mem_append.mp hd with hd | hd
      · exact hws d hd
      · rw [List.mem_singleton.mp hd]
        exact hspace

end Token

namespace Tree

open Token (isSpace)

variable {cs : List Char} {ts : List Token} {members : List (List Piece × Tree)}

def isObject : Tree → Bool
  | .object _ => true
  | _ => false

def Frame.isObject : Frame → Bool
  | .object _ _ => true
  | .array _ => false

/-- Whether the outermost of some open containers is an object; as given when none is open. -/
def outermost (default : Bool) (frames : List Frame) : Bool :=
  (frames.getLast?.map Frame.isObject).getD default

@[simp] theorem outermost_cons (default : Bool) (frame : Frame) (frames : List Frame) :
    outermost default (frame :: frames) = outermost frame.isObject frames := by
  rw [outermost, outermost, List.getLast?_cons]
  cases frames.getLast? <;> rfl

namespace Builder

variable {b b' : Builder} {t : Token}

/-- Whether what is built will be an object; `false` as long as nothing has begun. -/
def buildsObject : Builder → Bool
  | .value frames => outermost false frames
  | .item frames => outermost false frames
  | .member frames => outermost true frames
  | .key _ frames => outermost true frames
  | .colon _ _ frames => outermost true frames
  | .after v frames => outermost v.isObject frames

theorem begin?_buildsObject {frame : Frame} {frames : List Frame}
    (h : begin? (frame :: frames) t = some b) :
    b ≠ .value [] ∧ b.buildsObject = outermost frame.isObject frames := by
  cases t <;> cases h <;> exact ⟨nofun, outermost_cons _ _ _⟩

theorem step_item {frames : List Frame} (h : t ≠ .endArray) :
    (item frames).step t = begin? (.array [] :: frames) t := by
  rw [step]
  exact fun he => absurd he h

/-- Once something has begun, it stays an object or stays none. -/
theorem step_buildsObject (hbegun : b ≠ .value []) (h : b.step t = some b') :
    b' ≠ .value [] ∧ b'.buildsObject = b.buildsObject := by
  cases b with
  | value frames =>
    cases frames with
    | nil => exact absurd rfl hbegun
    | cons frame frames =>
      obtain ⟨hne, hbuilds⟩ := begin?_buildsObject h
      exact ⟨hne, hbuilds.trans (outermost_cons _ _ _).symm⟩
  | item frames =>
    by_cases hend : t = .endArray
    · subst hend
      cases h
      exact ⟨nofun, rfl⟩
    · rw [step_item hend] at h
      exact begin?_buildsObject h
  | member frames => cases t <;> cases h <;> exact ⟨nofun, rfl⟩
  | key members frames =>
    cases t <;> cases h
    exact ⟨nofun, rfl⟩
  | colon members key frames =>
    cases t <;> cases h
    exact ⟨nofun, outermost_cons _ _ _⟩
  | after v frames =>
    cases frames with
    | nil => cases h
    | cons frame frames =>
      cases frame <;> cases t <;> cases h <;>
        exact ⟨nofun, by simp [buildsObject, Tree.isObject, Frame.isObject]⟩

theorem run_buildsObject {ts : List Token} (hbegun : b ≠ .value [])
    (h : ts.foldlM step b = some b') : b'.buildsObject = b.buildsObject := by
  induction ts generalizing b with
  | nil =>
    cases h
    rfl
  | cons t rest ih =>
    rw [List.foldlM_cons] at h
    obtain ⟨next, hstep, hrest⟩ := Option.bind_eq_some_iff.mp h
    obtain ⟨hbegun', hbuilds⟩ := step_buildsObject hbegun hstep
    rw [ih hbegun' hrest, hbuilds]

/-- Only a brace completes an object. -/
theorem step_eq_object {members : List (List Piece × Tree)}
    (h : b.step t = some (.after (.object members) [])) : t = .endObject := by
  cases b with
  | value frames => cases t <;> cases h
  | item frames => cases t <;> cases h
  | member frames =>
    cases t <;> cases h
    rfl
  | key members frames => cases t <;> cases h
  | colon members key frames => cases t <;> cases h
  | after v frames =>
    cases frames with
    | nil => cases h
    | cons frame frames =>
      cases frame <;> cases t <;> cases h
      rfl

theorem finish_eq_some {v : Tree} : b.finish = some v ↔ b = .after v [] := by
  cases b with
  | after w frames =>
    cases frames with
    | nil => simp [finish]
    | cons => simp [finish]
  | _ => simp [finish]

end Builder

theorem ofTokens?_eq_some {v : Tree} :
    ofTokens? ts = some v ↔ ts.foldlM Builder.step (.value []) = some (.after v []) := by
  simp only [ofTokens?, Option.bind_eq_some_iff, Builder.finish_eq_some, exists_eq_right]

/-- The tokens of an object begin and end with its braces. -/
theorem tokens_of_object (h : ofTokens? ts = some (.object members)) :
    ts.head? = some .beginObject ∧ ts.getLast? = some .endObject := by
  have hrun := ofTokens?_eq_some.mp h
  constructor
  · cases ts with
    | nil => cases hrun
    | cons t rest =>
      rw [List.foldlM_cons] at hrun
      obtain ⟨b, hstep, hrest⟩ := Option.bind_eq_some_iff.mp hrun
      have hbegun : b ≠ .value [] := by
        rintro rfl
        cases t <;> cases hstep
      have hbuilds := Builder.run_buildsObject hbegun hrest
      -- What another token begins is no object.
      cases t <;> cases hstep <;> first | rfl | cases hbuilds
  · cases ts using List.reverseRecOn with
    | nil => cases hrun
    | append_singleton rest t =>
      rw [List.foldlM_append] at hrun
      obtain ⟨b, -, hlast⟩ := Option.bind_eq_some_iff.mp hrun
      rw [List.foldlM_cons] at hlast
      obtain ⟨b', hstep, hdone⟩ := Option.bind_eq_some_iff.mp hlast
      cases hdone
      rw [Builder.step_eq_object hstep, List.getLast?_append, List.getLast?_singleton]
      rfl

/-- The characters of an object are spaces, a brace, what is in it, a brace, and spaces; without the
spaces they are the same tokens. -/
theorem object_framed (h : (Token.ofChars? cs).bind ofTokens? = some (.object members)) :
    ∃ ws inner ws', cs = ws ++ ('{' :: inner ++ ['}']) ++ ws' ∧ (∀ c ∈ ws, isSpace c = true) ∧
      (∀ c ∈ ws', isSpace c = true) ∧
      Token.ofChars? ('{' :: inner ++ ['}']) = Token.ofChars? cs := by
  obtain ⟨ts, hts, hobject⟩ := Option.bind_eq_some_iff.mp h
  obtain ⟨hfirst, hlast⟩ := tokens_of_object hobject
  obtain ⟨ws, rest, rfl, hws, hrest⟩ := Token.ofChars?_front hts hfirst
  obtain ⟨core, ws', hcore, hws', htokens⟩ := Token.ofChars?_back hrest hlast
  cases core with
  | nil => cases hcore
  | cons c inner =>
    cases hcore
    exact ⟨ws, inner, ws', by simp, hws, hws', htokens.trans hts.symm⟩

/-- Nothing but spaces may follow an object. -/
theorem object_trailing {rest : List Char}
    (h : (Token.ofChars? cs).bind ofTokens? = some (.object members))
    (hrest : ∃ c ∈ rest, isSpace c = false) :
    (Token.ofChars? (cs ++ rest)).bind ofTokens? = none := by
  obtain ⟨ts, hts, hobject⟩ := Option.bind_eq_some_iff.mp h
  obtain ⟨l, hrun, hfinish⟩ := Token.ofChars?_eq_some.mp hts
  obtain ⟨tokens, rfl, rfl⟩ := Lexer.between_of_last hfinish (tokens_of_object hobject).2 rfl
  refine Option.bind_eq_none_iff.mpr fun all hall => ?_
  obtain ⟨l', hrun', hfinish'⟩ := Token.ofChars?_eq_some.mp hall
  rw [List.foldlM_append, hrun] at hrun'
  obtain ⟨more, rfl⟩ := Lexer.run_leads (l := ⟨_, .between⟩) hrun' hfinish'
  cases more with
  | nil =>
    rw [List.append_nil] at hfinish'
    obtain ⟨c, hc, hvisible⟩ := hrest
    have hspace := Lexer.spaces_of_silent hrun' hfinish' c hc
    cases hvisible.symm.trans hspace
  | cons t more =>
    -- After a whole object no token can be taken.
    have hdone := ofTokens?_eq_some.mp hobject
    rw [ofTokens?, List.foldlM_append, hdone]
    rfl

end Tree

end Linkage.Json
