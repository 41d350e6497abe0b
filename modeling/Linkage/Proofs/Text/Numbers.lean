import Linkage.Proofs.Json.Numerals
import Linkage.Proofs.Text.Trimming

namespace Linkage.Text

theorem digit?_digitChar {d : Nat} (h : d < 10) : digit? (Nat.digitChar d) = some d := by
  revert d
  decide

theorem natOfDigits?_append (read : Nat) (as bs : List Char) :
    natOfDigits? read (as ++ bs) = (natOfDigits? read as).bind fun n => natOfDigits? n bs := by
  induction as generalizing read with
  | nil => rfl
  | cons c as ih =>
    rw [List.cons_append, natOfDigits?, natOfDigits?]
    cases digit? c with
    | none => rfl
    | some d => exact ih (10 * read + d)

/-- On the number: its last digit follows the digits of the number without it. -/
theorem natOfDigits?_toDigits (k : Nat) : natOfDigits? 0 (Nat.toDigits 10 k) = some k := by
  induction k using Nat.strongRecOn with
  | ind k ih =>
    rcases Nat.lt_or_ge k 10 with hk | hk
    · rw [Nat.toDigits_of_lt_base hk, natOfDigits?, digit?_digitChar hk, Option.bind_some,
        natOfDigits?, Nat.mul_zero, Nat.zero_add]
    · have hmod : k % 10 < 10 := Nat.mod_lt k (by decide)
      rw [Nat.toDigits_of_base_le (by decide) hk, natOfDigits?_append,
        ih (k / 10) (by omega), Option.bind_some, natOfDigits?, digit?_digitChar hmod,
        Option.bind_some, natOfDigits?]
      exact congrArg some (Nat.div_add_mod k 10)

theorem nat?_toDigits (k : Nat) : nat? (Nat.toDigits 10 k) = some k := by
  have hne : (Nat.toDigits 10 k).isEmpty = false := by simp [Nat.toDigits_ne_nil]
  rw [nat?, hne, if_neg Bool.false_ne_true, natOfDigits?_toDigits]

theorem int?_decimal (n : Int) : int? (decimal n).toList = some n := by
  rw [Json.Numeral.decimal_toList]
  by_cases h : n < 0
  · rw [if_pos (decide_eq_true h), int?, nat?_toDigits]
    change some (-(n.natAbs : Int)) = some n
    congr 1
    omega
  · rw [if_neg (by simpa using h), int?, nat?_toDigits]
    · change some (n.natAbs : Int) = some n
      congr 1
      omega
    -- No sign stands before the digits.
    all_goals
      intro rest hrest
      have hdigit := Json.Numeral.isDigit_of_mem (hrest ▸ List.mem_cons_self)
      exact absurd hdigit (by decide)

/-- The decimal text of a 64-bit integer denotes it. -/
theorem int64?_decimal (n : Int64) : int64? (decimal n.toInt) = some n := by
  rw [int64?, int?_decimal, Option.bind_some, int64OfInt?,
    if_pos ⟨n.minValue_le_toInt, n.toInt_le⟩, Int64.ofInt_toInt]

theorem natOfDigits?_eq_none {c : Char} {cs : List Char} (hc : c ∈ cs) (h : digit? c = none)
    (read : Nat) : natOfDigits? read cs = none := by
  induction cs generalizing read with
  | nil => cases hc
  | cons d cs ih =>
    rw [natOfDigits?, Option.bind_eq_none_iff]
    intro n hn
    rcases List.mem_cons.mp hc with rfl | hc
    · cases hn.symm.trans h
    · exact ih hc _

theorem int?_eq_none {c : Char} {cs : List Char} (hc : c ∈ cs) (h : digit? c = none)
    (hminus : c ≠ '-') (hplus : c ≠ '+') : int? cs = none := by
  have hnat {ds : List Char} (hd : c ∈ ds) : nat? ds = none := by
    rw [nat?, if_neg (by simp [List.ne_nil_of_mem hd]), natOfDigits?_eq_none hd h]
  unfold int?
  split
  · rw [hnat ((List.mem_cons.mp hc).resolve_left hminus)]
    rfl
  · rw [hnat ((List.mem_cons.mp hc).resolve_left hplus)]
    rfl
  · rw [hnat hc]
    rfl

theorem int64?_eq_none {c : Char} {s : String} (hc : c ∈ s.toList) (h : digit? c = none)
    (hminus : c ≠ '-') (hplus : c ≠ '+') : int64? s = none := by
  rw [int64?, int?_eq_none hc h hminus hplus, Option.bind_none]

theorem isBlank_of_isDigit {c : Char} (h : c.isDigit = true) : isBlank c = false := by
  simp only [Char.isDigit, Bool.and_eq_true, decide_eq_true_eq] at h
  have hlow : 48 ≤ c.toNat := UInt32.le_iff_toNat_le.mp h.1
  have hhigh : c.toNat ≤ 57 := UInt32.le_iff_toNat_le.mp h.2
  simp only [isBlank, blankRanges, List.any_cons, List.any_nil, Bool.or_false, Bool.or_eq_false_iff,
    Bool.and_eq_false_iff, decide_eq_false_iff_not]
  omega

theorem isBlank_toDigits {k : Nat} {c : Char} (h : c ∈ Nat.toDigits 10 k) : isBlank c = false :=
  isBlank_of_isDigit (Json.Numeral.isDigit_of_mem h)

theorem isBlank_decimal (n : Int) : ∀ c ∈ (decimal n).toList, isBlank c = false := by
  intro c hc
  rcases Json.Numeral.mem_decimal hc with rfl | hdigit
  · decide
  · exact isBlank_of_isDigit hdigit

theorem trim_decimal (n : Int) : trim (decimal n) = decimal n :=
  trim_eq_self.mpr (.of_all (isBlank_decimal n))

end Linkage.Text

namespace Linkage.Json.Number

open Text (isBlank)

variable {digits : List Char} {order : Int}

/-- The marks among the digits of a number. -/
theorem isBlank_mark : ∀ c ∈ ['0', '.', 'e', '-', '+'], isBlank c = false := by
  simp only [List.forall_mem_cons, List.not_mem_nil, false_imp_iff, implies_true, and_true]
  decide

theorem isBlank_positional (h : ∀ d ∈ digits, isBlank d = false) :
    ∀ c ∈ positional digits order, isBlank c = false := by
  have hmark := isBlank_mark
  intro c hc
  unfold positional at hc
  grind [List.mem_of_mem_take, List.mem_of_mem_drop]

theorem isBlank_exponential (h : ∀ d ∈ digits, isBlank d = false) :
    ∀ c ∈ exponential digits order, isBlank c = false := by
  have hmark := isBlank_mark
  have horder (c : Char) := Text.isBlank_toDigits (k := order.natAbs) (c := c)
  intro c hc
  unfold exponential at hc
  grind

theorem isBlank_magnitudeChars (x : Decimal.Binary64) :
    ∀ c ∈ magnitudeChars x, isBlank c = false := by
  have hdigits (k : Nat) : ∀ c ∈ Nat.toDigits 10 k, isBlank c = false :=
    fun _ => Text.isBlank_toDigits
  unfold magnitudeChars
  split
  · have hmarks : ['0', '.', '0'] ⊆ ['0', '.', 'e', '-', '+'] := by simp
    exact fun c hc => isBlank_mark c (hmarks hc)
  · dsimp only
    split
    · exact isBlank_positional (hdigits _)
    · exact isBlank_exponential (hdigits _)

theorem positional_ne_nil (digits : List Char) (order : Int) : positional digits order ≠ [] := by
  unfold positional
  split
  · simp
  · dsimp only
    split <;> simp

theorem magnitudeChars_ne_nil (x : Decimal.Binary64) : magnitudeChars x ≠ [] := by
  unfold magnitudeChars
  split
  · simp
  · dsimp only
    split
    · exact positional_ne_nil _ _
    · simp [exponential]

/-- The text of a number has no blanks, and is not empty. -/
theorem trim_text (n : Number) : Text.trim n.text = n.text ∧ n.text ≠ "" := by
  cases n with
  | int n =>
    exact ⟨Text.trim_decimal n, fun h => Numeral.decimal_ne_nil n (congrArg String.toList h)⟩
  | double negative x =>
    have hminus := isBlank_mark '-' (by simp)
    have hvisible := isBlank_magnitudeChars x
    have hne := magnitudeChars_ne_nil x
    rw [Text.trim_eq_self, text, String.toList_ofList, ne_eq, ← String.toList_inj,
      String.toList_ofList]
    cases negative with
    | true => exact ⟨.of_all (List.forall_mem_cons.mpr ⟨hminus, hvisible⟩), List.cons_ne_nil _ _⟩
    | false => exact ⟨.of_all hvisible, hne⟩

end Linkage.Json.Number
