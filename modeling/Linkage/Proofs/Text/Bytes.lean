import Linkage.Text.Utf8
import Mathlib.Tactic.Common

namespace Linkage.Text.Utf8

/-- So many bytes are missing, these bits are read, and the byte may come next. -/
structure Pending.Expects (p : Pending) (missing bits next : Nat) : Prop where
  missing : p.missing = missing
  bits : p.bits = bits
  low : p.low ≤ next
  high : next ≤ p.high

variable {n bits k : Nat} {p : Pending}

/-! ## The first byte -/

theorem begin_one (h : n < 0x80) : begin n = .char (Char.ofNat n) := by
  rw [begin, if_pos h]

theorem begin_two (hlow : 0x80 ≤ n) (hhigh : n < 0x800) :
    ∃ p, begin (0xC0 + n / 64) = .pending p ∧ p.Expects 1 (n / 64) (0x80 + n % 64) := by
  refine ⟨⟨1, n / 64, 0x80, 0xBF⟩, ?_, rfl, rfl, by dsimp; omega, by dsimp; omega⟩
  rw [begin, if_neg (by omega), if_pos (by omega), Nat.add_sub_cancel_left]

/-- Neither overlong forms nor halves of pairs are expected. -/
theorem begin_three (hlow : 0x800 ≤ n) (hhigh : n < 0x10000) (hpair : n < 0xD800 ∨ 0xDFFF < n) :
    ∃ p, begin (0xE0 + n / 4096) = .pending p ∧
      p.Expects 2 (n / 4096) (0x80 + n / 64 % 64) := by
  by_cases hfirst : n / 4096 = 0
  · refine ⟨⟨2, 0, 0xA0, 0xBF⟩, ?_, rfl, hfirst.symm, by dsimp; omega, by dsimp; omega⟩
    rw [hfirst]
    rfl
  by_cases hpaired : n / 4096 = 0xD
  · refine ⟨⟨2, 0xD, 0x80, 0x9F⟩, ?_, rfl, hpaired.symm, by dsimp; omega, by dsimp; omega⟩
    rw [hpaired]
    rfl
  refine ⟨⟨2, n / 4096, 0x80, 0xBF⟩, ?_, rfl, rfl, by dsimp; omega, by dsimp; omega⟩
  rw [begin, if_neg (by omega), if_neg (by omega), if_neg (by omega), if_neg (by omega),
    if_pos (by omega), Nat.add_sub_cancel_left]

theorem begin_four (hlow : 0x10000 ≤ n) (hhigh : n < 0x110000) :
    ∃ p, begin (0xF0 + n / 262144) = .pending p ∧
      p.Expects 3 (n / 262144) (0x80 + n / 4096 % 64) := by
  by_cases hfirst : n / 262144 = 0
  · refine ⟨⟨3, 0, 0x90, 0xBF⟩, ?_, rfl, hfirst.symm, by dsimp; omega, by dsimp; omega⟩
    rw [hfirst]
    rfl
  by_cases hlast : n / 262144 = 4
  · refine ⟨⟨3, 4, 0x80, 0x8F⟩, ?_, rfl, hlast.symm, by dsimp; omega, by dsimp; omega⟩
    rw [hlast]
    rfl
  refine ⟨⟨3, n / 262144, 0x80, 0xBF⟩, ?_, rfl, rfl, by dsimp; omega, by dsimp; omega⟩
  rw [begin, if_neg (by omega), if_neg (by omega), if_neg (by omega), if_neg (by omega),
    if_neg (by omega), if_neg (by omega), if_pos (by omega), Nat.add_sub_cancel_left]

/-! ## The bytes after it -/

variable {read : List Char}

theorem step_onward {missing : Nat} (h : p.Expects (missing + 2) bits (0x80 + k)) :
    Decoder.step ⟨read, some p⟩ (0x80 + k) =
      ⟨read, some ⟨missing + 1, bits * 64 + k, 0x80, 0xBF⟩⟩ := by
  obtain ⟨missing, bits, low, high⟩ := p
  obtain ⟨rfl, rfl, hlow, hhigh⟩ := h
  dsimp only at hlow hhigh
  simp only [Decoder.step, hlow, hhigh, and_self, if_true, Pending.push]
  rw [if_neg (by omega), Nat.add_sub_cancel_left]
  rfl

theorem step_last (h : p.Expects 1 bits (0x80 + k)) :
    Decoder.step ⟨read, some p⟩ (0x80 + k) = ⟨Char.ofNat (bits * 64 + k) :: read, none⟩ := by
  obtain ⟨missing, bits, low, high⟩ := p
  obtain ⟨rfl, rfl, hlow, hhigh⟩ := h
  dsimp only at hlow hhigh
  simp only [Decoder.step, hlow, hhigh, and_self, if_true, Pending.push]
  rw [Nat.add_sub_cancel_left]
  rfl

/-- Any byte of the common range may come after the second. -/
theorem expects_tail {missing : Nat} (hk : k < 64) :
    Pending.Expects ⟨missing, bits, 0x80, 0xBF⟩ missing bits (0x80 + k) :=
  ⟨rfl, rfl, Nat.le_add_right _ _, by dsimp; omega⟩

theorem step_begin {b : Nat} (h : begin b = .pending p) :
    Decoder.step ⟨read, none⟩ b = ⟨read, some p⟩ := by
  rw [Decoder.step, h]
  rfl

/-- The bytes of a character are read as that character. -/
theorem foldl_encode (read : List Char) (c : Char) :
    (encode c).foldl Decoder.step ⟨read, none⟩ = ⟨c :: read, none⟩ := by
  have hvalid : c.toNat < 0xD800 ∨ (0xDFFF < c.toNat ∧ c.toNat < 0x110000) := c.valid
  have hc : Char.ofNat c.toNat = c := c.ofNat_toNat
  unfold encode
  generalize c.toNat = n at hvalid hc
  subst hc
  dsimp only
  split
  · rename_i h
    rw [List.foldl_cons, Decoder.step, begin_one h]
    rfl
  split
  · rename_i hlow hhigh
    obtain ⟨p, hp, hsecond⟩ := begin_two (by omega) hhigh
    have hbits : n / 64 * 64 + n % 64 = n := by omega
    rw [List.foldl_cons, step_begin hp, List.foldl_cons, step_last hsecond, hbits, List.foldl_nil]
  split
  · rename_i hlow hhigh
    obtain ⟨p, hp, hsecond⟩ := begin_three (by omega) hhigh (by omega)
    have hbits : (n / 4096 * 64 + n / 64 % 64) * 64 + n % 64 = n := by omega
    rw [List.foldl_cons, step_begin hp, List.foldl_cons, step_onward hsecond, List.foldl_cons,
      step_last (expects_tail (by omega)), hbits, List.foldl_nil]
  · rename_i hlow
    obtain ⟨p, hp, hsecond⟩ := begin_four (n := n) (by omega) (by omega)
    have hbits : ((n / 262144 * 64 + n / 4096 % 64) * 64 + n / 64 % 64) * 64 + n % 64 = n := by
      omega
    rw [List.foldl_cons, step_begin hp, List.foldl_cons, step_onward hsecond, List.foldl_cons,
      step_onward (expects_tail (by omega)), List.foldl_cons, step_last (expects_tail (by omega)),
      hbits, List.foldl_nil]

/-- A text is what its bytes are read as. -/
theorem decode_encode (cs : List Char) : decode (cs.flatMap encode) = cs := by
  have run (read : List Char) :
      (cs.flatMap encode).foldl Decoder.step ⟨read, none⟩ = ⟨cs.reverse ++ read, none⟩ := by
    induction cs generalizing read with
    | nil => rfl
    | cons c rest ih =>
      rw [List.flatMap_cons, List.foldl_append, foldl_encode, ih, List.reverse_cons,
        List.append_assoc]
      rfl
  rw [decode, run, Decoder.finish, List.append_nil, List.reverse_reverse]

theorem lt_of_mem_encode {c : Char} {b : Nat} (h : b ∈ encode c) : b < 0x100 := by
  have hvalid : c.toNat < 0xD800 ∨ (0xDFFF < c.toNat ∧ c.toNat < 0x110000) := c.valid
  simp only [encode] at h
  split_ifs at h <;> simp only [List.mem_cons, List.not_mem_nil, or_false] at h <;> omega

end Linkage.Text.Utf8
