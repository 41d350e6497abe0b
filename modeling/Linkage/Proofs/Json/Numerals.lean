import Linkage.Json.Shape
import Mathlib.Data.List.Basic
import Mathlib.Data.List.TakeWhile

namespace Linkage.Json

open Linkage.Text (digit? decimal)

namespace Numeral

/-- The decimal digits of a number, the highest first. -/
def digits (k : Nat) : List Nat := (Nat.toDigits 10 k).map fun c => c.toNat - '0'.toNat

/-- The numeral of an integer's decimal text. -/
def ofInt (n : Int) : Numeral := ⟨decide (n < 0), digits n.natAbs, [], none⟩

theorem digits_of_lt {k : Nat} (h : k < 10) : digits k = [k] := by
  rw [digits, Nat.toDigits_of_lt_base h, List.map_singleton]
  exact congrArg (fun d => [d]) (Nat.toNat_digitChar_sub_48_of_lt_ten h)

theorem digits_of_le {k : Nat} (h : 10 ≤ k) : digits k = digits (k / 10) ++ [k % 10] := by
  have hlast : digits (k % 10) = [k % 10] := digits_of_lt (Nat.mod_lt k (by decide))
  rw [← hlast, digits, digits, digits, ← List.map_append, Nat.toDigits_of_base_le (by decide) h,
    Nat.toDigits_of_lt_base (Nat.mod_lt k (by decide))]

/-- Only zero has a zero in front. -/
theorem digits_eq_cons {k : Nat} (h : 0 < k) : ∃ d rest, digits k = d :: rest ∧ d ≠ 0 := by
  induction k using Nat.strongRecOn with
  | ind k ih =>
    rcases Nat.lt_or_ge k 10 with hk | hk
    · exact ⟨k, [], digits_of_lt hk, Nat.ne_of_gt h⟩
    · obtain ⟨d, rest, hd, hne⟩ := ih (k / 10) (by omega) (by omega)
      exact ⟨d, rest ++ [k % 10], by rw [digits_of_le hk, hd, List.cons_append], hne⟩

theorem wholeIsRegular_digits (k : Nat) : wholeIsRegular (digits k) = true := by
  rcases Nat.lt_or_ge k 10 with hk | hk
  · rw [digits_of_lt hk, wholeIsRegular]
  · obtain ⟨d, rest, hd, hne⟩ := digits_eq_cons (k := k / 10) (by omega)
    rw [digits_of_le hk, hd]
    cases rest <;> simp [wholeIsRegular, hne]

theorem isDigit_of_mem {k : Nat} {c : Char} (h : c ∈ Nat.toDigits 10 k) : c.isDigit = true :=
  Nat.isDigit_of_mem_toDigits (by decide) (by decide) h

theorem takeDigits_toDigits (k : Nat) : takeDigits (Nat.toDigits 10 k) = (digits k, []) := by
  have hall : ∀ c ∈ Nat.toDigits 10 k, c.isDigit = true := fun _ => isDigit_of_mem
  have hread : (Nat.toDigits 10 k).filterMap digit? = digits k := by
    rw [digits, ← List.filterMap_eq_map]
    refine List.filterMap_congr fun c hc => ?_
    rw [digit?, if_pos (hall c hc), Function.comp_apply]
  rw [takeDigits, List.takeWhile_eq_self_iff.mpr hall, List.dropWhile_eq_nil_iff.mpr hall, hread]

theorem ofChars?_digits (k : Nat) (negative : Bool) :
    ofChars? (if negative then '-' :: Nat.toDigits 10 k else Nat.toDigits 10 k) =
      some ⟨negative, digits k, [], none⟩ := by
  cases negative with
  | true =>
    simp [ofChars?, takeDigits_toDigits, wholeIsRegular_digits, fraction?, exponent?]
  | false =>
    have hsign : ∀ rest, Nat.toDigits 10 k ≠ '-' :: rest := fun rest h => by
      have hdigit : Char.isDigit '-' = true := isDigit_of_mem (k := k) (by simp [h])
      exact absurd hdigit (by decide)
    simp [ofChars?, takeDigits_toDigits, wholeIsRegular_digits, fraction?, exponent?]

theorem decimal_toList (n : Int) :
    (decimal n).toList =
      if decide (n < 0) then '-' :: Nat.toDigits 10 n.natAbs else Nat.toDigits 10 n.natAbs := by
  cases n with
  | ofNat k => simp [decimal]
  | negSucc k => simp [decimal, Int.negSucc_lt_zero]

theorem mem_decimal {n : Int} {c : Char} (h : c ∈ (decimal n).toList) :
    c = '-' ∨ c.isDigit = true := by
  rw [decimal_toList] at h
  split at h
  · exact (List.mem_cons.mp h).imp_right isDigit_of_mem
  · exact .inr (isDigit_of_mem h)

theorem decimal_ne_nil (n : Int) : (decimal n).toList ≠ [] := by
  rw [decimal_toList]
  split
  · exact List.cons_ne_nil _ _
  · exact Nat.toDigits_ne_nil

end Numeral

/-- No numeral is mistaken for a word. -/
theorem Token.ofRun?_decimal (n : Int) :
    ofRun? (decimal n).toList = some (.number (.ofInt n)) := by
  have hwords : ∀ c ∈ (decimal n).toList, c ≠ 'n' ∧ c ≠ 't' ∧ c ≠ 'f' := by
    intro c hc
    rcases Numeral.mem_decimal hc with rfl | hdigit
    · decide
    · refine ⟨?_, ?_, ?_⟩ <;> rintro rfl <;> exact absurd hdigit (by decide)
  have hnumber : Numeral.ofChars? (decimal n).toList = some (.ofInt n) := by
    rw [Numeral.decimal_toList]
    exact Numeral.ofChars?_digits _ _
  unfold ofRun?
  split
  · rename_i h
    exact absurd rfl (hwords 'n' (by simp [h])).1
  · rename_i h
    exact absurd rfl (hwords 't' (by simp [h])).2.1
  · rename_i h
    exact absurd rfl (hwords 'f' (by simp [h])).2.2
  · rw [hnumber, Option.map_some]

namespace Number

/-- All digits of a number join the significand when the number itself fits. -/
theorem foldl_pushWhole_digits {k : Nat} (h : k ≤ significandLimit) :
    (Numeral.digits k).foldl Significand.pushWhole ⟨0, 0, false⟩ = ⟨k, 0, false⟩ := by
  induction k using Nat.strongRecOn with
  | ind k ih =>
    have push {v d : Nat} (hv : v * 10 + d = k) :
        Significand.pushWhole ⟨v, 0, false⟩ d = ⟨k, 0, false⟩ := by
      simp [Significand.pushWhole, hv, Nat.not_lt.mpr h]
    rcases Nat.lt_or_ge k 10 with hk | hk
    · rw [Numeral.digits_of_lt hk, List.foldl_cons, List.foldl_nil, push (by omega)]
    · rw [Numeral.digits_of_le hk, List.foldl_append, ih (k / 10) (by omega) (by omega),
        List.foldl_cons, List.foldl_nil, push (by omega)]

/-- The integers of 64 bits are kept as they are. -/
theorem ofNumeral?_ofInt {n : Int} (hmin : Int64.minValue.toInt ≤ n)
    (hmax : n ≤ Int64.maxValue.toInt) : ofNumeral? (.ofInt n) = some (.int n) := by
  have hlow : -9223372036854775808 ≤ n := hmin
  have hhigh : n ≤ 9223372036854775807 := hmax
  have hlimit : n.natAbs ≤ significandLimit := by
    change n.natAbs ≤ 18446744073709551615
    omega
  rw [ofNumeral?, Numeral.ofInt, foldl_pushWhole_digits hlimit]
  by_cases hn : n < 0
  · have hfits : ¬ (n.natAbs = 0 ∨ Nat.pow 2 63 < n.natAbs) := by
      change ¬ (_ ∨ 9223372036854775808 < _)
      omega
    simp only [hn, ofWhole?, hfits, List.isEmpty_nil, Bool.not_false, Bool.and_self, decide_true,
      if_true, if_false]
    congr 2
    omega
  · simp only [hn, ofWhole?, List.isEmpty_nil, Bool.not_false, Bool.and_self, decide_false,
      if_true, Bool.false_eq_true, if_false]
    congr 2
    omega

end Number

namespace Tree

theorem int64?_ofInt (x : Int64) : (number (.ofInt x.toInt)).int64? = some x := by
  rw [int64?, Number.ofNumeral?_ofInt x.minValue_le_toInt x.toInt_le, Option.bind_some,
    Number.int64?, Text.int64OfInt?, if_pos ⟨x.minValue_le_toInt, x.toInt_le⟩, Int64.ofInt_toInt]

theorem int32?_ofInt (x : Int32) : (number (.ofInt x.toInt)).int32? = some x := by
  have hmin : Int64.minValue.toInt ≤ x.toInt := Int.le_trans (by decide) x.minValue_le_toInt
  have hmax : x.toInt ≤ Int64.maxValue.toInt := Int.le_trans x.toInt_le (by decide)
  rw [int32?, Number.ofNumeral?_ofInt hmin hmax, Option.bind_some, Number.int32?,
    Text.int32OfInt?, if_pos ⟨x.minValue_le_toInt, x.toInt_le⟩, Int32.ofInt_toInt]

end Tree

end Linkage.Json
