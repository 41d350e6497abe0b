import Linkage.Json.Printer
import Linkage.Proofs.Json.Numerals

namespace Linkage.Json

namespace Quoted

/-- The piece of a character as it is written between quotes. The control characters that have no
letter of their own are written by their codes. -/
def piece (c : Char) : Piece :=
  if isControl c && c ∉ ['\x08', '\x0c', '\n', '\r', '\t'] then .code c.toNat else .char c

def pieces (s : String) : List Piece := s.toList.map piece

/-- A code that is not half of a pair stands for itself. -/
theorem decode_code {unit : Nat} (h : unit < 0xD800) (rest : List Piece) :
    decode (.code unit :: rest) = (decode rest).map (Char.ofNat unit :: ·) := by
  have hhigh : isHigh unit = false := by simp [isHigh, Nat.not_le.mpr h]
  have hlow : isLow unit = false := by
    have hlt : unit < 0xDC00 := Nat.lt_trans h (by decide)
    simp [isLow, Nat.not_le.mpr hlt]
  cases rest with
  | nil => simp [decode, hhigh, hlow]
  | cons p rest => cases p <;> simp [decode, hhigh, hlow]

theorem decode_pieces (s : String) : decode (pieces s) = some s.toList := by
  have hchars (cs : List Char) : decode (cs.map piece) = some cs := by
    induction cs with
    | nil => rfl
    | cons c cs ih =>
      rw [List.map_cons, piece]
      split
      · rename_i h
        have hcontrol : c.toNat < 0x20 := of_decide_eq_true (Bool.and_eq_true_iff.mp h).1
        rw [decode_code (Nat.lt_trans hcontrol (by decide)), ih, Option.map_some, Char.ofNat_toNat]
      · rw [decode, ih, Option.map_some]
  exact hchars s.toList

theorem hexDigit?_digitChar {d : Nat} (h : d < 16) : Text.hexDigit? (Nat.digitChar d) = some d := by
  revert d
  decide

end Quoted

namespace Lexer

open Quoted (piece pieces encode encodeChar)

theorem foldlM_encodeChar (tokens : List Token) (read : List Piece) (c : Char) :
    (encodeChar c).foldlM step ⟨tokens, .quoted read⟩ =
      some ⟨tokens, .quoted (piece c :: read)⟩ := by
  unfold encodeChar
  split
  -- The characters that have an escape with a letter.
  iterate 7 rfl
  rename_i hquote hslash _ _ _ _ _
  split
  · rename_i hcontrol
    have hlt : c.toNat < 0x20 := of_decide_eq_true hcontrol
    have hhigh := Quoted.hexDigit?_digitChar (d := c.toNat / 16) (by omega)
    have hlow := Quoted.hexDigit?_digitChar (d := c.toNat % 16) (by omega)
    have hdigits : 16 * (c.toNat / 16) + c.toNat % 16 = c.toNat := Nat.div_add_mod _ _
    have hpiece : piece c = .code c.toNat := by simp_all [piece]
    have hzero : Text.hexDigit? '0' = some 0 := rfl
    simp [step, hzero, hhigh, hlow, hpiece, hdigits]
  · rename_i hcontrol
    have hpiece : piece c = .char c := by simp_all [piece]
    have hquote : c ≠ '"' := fun h => hquote h
    have hslash : c ≠ '\\' := fun h => hslash h
    simp [step, hquote, hslash, hcontrol, hpiece]

theorem foldlM_encode (tokens : List Token) (read : List Piece) (cs : List Char) :
    (encode cs).foldlM step ⟨tokens, .quoted read⟩ =
      some ⟨tokens, .quoted ((cs.map piece).reverse ++ read)⟩ := by
  induction cs generalizing read with
  | nil => rfl
  | cons c cs ih =>
    rw [encode, List.flatMap_cons, List.foldlM_append, foldlM_encodeChar]
    refine (ih (piece c :: read)).trans ?_
    simp

/-- The tokens so far, newest first, when no quoted text is open. -/
def close (l : Lexer) : Option (List Token) :=
  match l.mode with
  | .between => some l.tokens
  | .run read => (Token.ofRun? read.reverse).map (· :: l.tokens)
  | _ => none

theorem finish_eq (l : Lexer) : l.finish = l.close.map List.reverse := by
  obtain ⟨tokens, mode⟩ := l
  cases mode with
  | run read => cases h : Token.ofRun? read.reverse <;> simp [finish, close, h]
  | _ => rfl

theorem open?_mark {c : Char} {m : Token} (h : Token.mark? c = some m) (tokens : List Token) :
    open? tokens c = ⟨m :: tokens, .between⟩ := by
  unfold Token.mark? at h
  split at h <;> cases h <;> rfl

theorem endsRun_of_isDigit {c : Char} (h : c.isDigit = true) : endsRun c = false := by
  have hne : ∀ d ∈ [' ', '\t', '\n', '\r', '"'], c ≠ d := by
    rintro d hd rfl
    simp only [List.mem_cons, List.not_mem_nil, or_false] at hd
    rcases hd with rfl | rfl | rfl | rfl | rfl <;> exact absurd h (by decide)
  have hmark : Token.mark? c = none := by
    unfold Token.mark?
    split
    iterate 6 exact absurd h (by decide)
    rfl
  simp only [List.forall_mem_cons] at hne
  simp [endsRun, Token.isSpace, hne, hmark]

theorem any_endsRun_decimal (n : Int) : (Text.decimal n).toList.any endsRun = false := by
  refine List.any_eq_false.mpr fun c hc => Bool.eq_false_iff.mp ?_
  rcases Numeral.mem_decimal hc with rfl | hdigit
  · rfl
  · exact endsRun_of_isDigit hdigit

/-- A mark, a quote or a space closes what is before it. -/
theorem step_of_close {l : Lexer} {tokens : List Token} {c : Char} (h : l.close = some tokens)
    (hc : endsRun c = true) : l.step c = some (open? tokens c) := by
  unfold close at h
  unfold step
  split at h
  · rename_i hmode
    rw [hmode, ← Option.some.inj h]
  · rename_i read hmode
    obtain ⟨t, ht, rfl⟩ := Option.map_eq_some_iff.mp h
    simp [hmode, hc, ht]
  · cases h

theorem foldlM_run (tokens : List Token) (read : List Char) {cs : List Char}
    (h : cs.any endsRun = false) :
    cs.foldlM step ⟨tokens, .run read⟩ = some ⟨tokens, .run (cs.reverse ++ read)⟩ := by
  induction cs generalizing read with
  | nil => rfl
  | cons c cs ih =>
    obtain ⟨hc, hcs⟩ := Bool.or_eq_false_iff.mp h
    have hstep : step ⟨tokens, .run read⟩ c = some ⟨tokens, .run (c :: read)⟩ := by
      simp [step, hc]
    rw [List.foldlM_cons, hstep]
    refine (ih (c :: read) hcs).trans ?_
    simp

end Lexer

/-- A lexer that stands between tokens turns these characters into these tokens. A run at their end
may still be open. -/
def Lexes (cs : List Char) (ts : List Token) : Prop :=
  ∀ tokens, ∃ l, cs.foldlM Lexer.step ⟨tokens, .between⟩ = some l ∧
    l.close = some (ts.reverse ++ tokens)

namespace Lexes

variable {as bs : List Char} {ts us : List Token}

theorem nil : Lexes [] [] := fun tokens => ⟨⟨tokens, .between⟩, rfl, rfl⟩

/-- What stands on both sides of a mark is read on its own. -/
theorem mark {c : Char} {m : Token} (ha : Lexes as ts) (hm : Token.mark? c = some m)
    (hb : Lexes bs us) : Lexes (as ++ c :: bs) (ts ++ m :: us) := by
  intro tokens
  obtain ⟨l, hl, hclose⟩ := ha tokens
  have hends : Lexer.endsRun c = true := by simp [Lexer.endsRun, hm]
  obtain ⟨l', hl', hclose'⟩ := hb (m :: (ts.reverse ++ tokens))
  refine ⟨l', ?_, by simpa using hclose'⟩
  rw [List.foldlM_append, hl]
  change (c :: bs).foldlM Lexer.step l = _
  rw [List.foldlM_cons, Lexer.step_of_close hclose hends, Lexer.open?_mark hm]
  exact hl'

/-- A word or a numeral is one token. -/
theorem run {c : Char} {cs : List Char} {t : Token} (h : (c :: cs).any Lexer.endsRun = false)
    (ht : Token.ofRun? (c :: cs) = some t) : Lexes (c :: cs) [t] := by
  intro tokens
  obtain ⟨hc, hcs⟩ := Bool.or_eq_false_iff.mp h
  have hopen : Lexer.step ⟨tokens, .between⟩ c = some ⟨tokens, .run [c]⟩ := by
    simp only [Lexer.endsRun, Bool.or_eq_false_iff, beq_eq_false_iff_ne,
      Option.isSome_eq_false_iff, Option.isNone_iff_eq_none] at hc
    simp [Lexer.step, Lexer.open?, hc]
  refine ⟨⟨tokens, .run (cs.reverse ++ [c])⟩, ?_, by simp [Lexer.close, ht]⟩
  rw [List.foldlM_cons, hopen]
  exact Lexer.foldlM_run tokens [c] hcs

theorem quote (s : String) : Lexes (Json.quote s).toList [.quoted (Quoted.pieces s)] := by
  intro tokens
  refine ⟨⟨.quoted (Quoted.pieces s) :: tokens, .between⟩, ?_, rfl⟩
  have hopen : Lexer.step ⟨tokens, .between⟩ '"' = some ⟨tokens, .quoted []⟩ := rfl
  rw [Json.quote, String.toList_ofList, List.cons_append, List.foldlM_cons, hopen]
  change (Quoted.encode s.toList ++ ['"']).foldlM Lexer.step ⟨tokens, .quoted []⟩ = _
  rw [List.foldlM_append, Lexer.foldlM_encode]
  simp [Lexer.step, Quoted.pieces]

end Lexes

end Linkage.Json
