import Linkage.Decimal.Binary64

/-!
The shortest decimal that reads back as a given double; of several the nearest, and a tie goes to
the even last digit.
-/

namespace Linkage.Decimal

/-- The decimal `digits * 10 ^ exponent`. -/
structure Scientific where
  digits : Nat
  exponent : Int
  deriving DecidableEq, Repr

def digitCount (n : Nat) : Nat := (Nat.toDigits 10 n).length

/-- The `k` with `10 ^ k ≤ num / den < 10 ^ (k + 1)`, for a positive quotient. -/
def decimalOrder (num den : Nat) : Int :=
  let guess : Int := (digitCount num : Int) - (digitCount den : Int)
  if den * Nat.pow 10 guess.toNat ≤ num * Nat.pow 10 (-guess).toNat then guess else guess - 1

def Scientific.dropZeros : Nat → Scientific → Scientific
  | 0, x => x
  | n + 1, x =>
    if x.digits ≠ 0 ∧ x.digits % 10 = 0 then dropZeros n ⟨x.digits / 10, x.exponent + 1⟩ else x

namespace Binary64

/-- The multiples of `10 ^ k` next to `x`, below and above, that lie among the numbers rounding
to `x`; the ends of that interval belong to it when the mantissa is even. All is counted in
quarters of the unit `2 ^ x.exponent`. -/
def gridPoint? (x : Binary64) (k : Int) : Option Nat :=
  let unit := scaleByTwo 1 1 (x.exponent - 2)
  let grid := unit.2 * Nat.pow 10 k.toNat
  let scale := unit.1 * Nat.pow 10 (-k).toNat
  let value := 4 * x.mantissa * scale
  let gap := if x.mantissa = Nat.pow 2 52 ∧ leastExponent < x.exponent then 1 else 2
  let low := (4 * x.mantissa - gap) * scale
  let high := (4 * x.mantissa + 2) * scale
  let inside (point : Nat) : Bool :=
    if x.mantissa % 2 = 0 then decide (low ≤ point) && decide (point ≤ high)
    else decide (low < point) && decide (point < high)
  let below := value / grid
  let fitsBelow := inside (below * grid)
  let fitsAbove := inside ((below + 1) * grid)
  if fitsBelow && fitsAbove then some (roundHalfEven value grid)
  else if fitsBelow then some below
  else if fitsAbove then some (below + 1)
  else none

/-- Tries grids from `10 ^ k` downwards, each ten times finer than the one before. -/
def firstGridPoint (x : Binary64) : Nat → Int → Scientific
  | 0, k => ⟨x.mantissa, k⟩
  | n + 1, k =>
    match x.gridPoint? k with
    | some d => ⟨d, k⟩
    | none => firstGridPoint x n (k - 1)

/-- The shortest decimal that rounds to a positive magnitude. Seventeen digits always suffice. -/
def shortest (x : Binary64) : Scientific :=
  let ratio := scaleByTwo x.mantissa 1 x.exponent
  (x.firstGridPoint 17 (decimalOrder ratio.1 ratio.2)).dropZeros 17

end Binary64

end Linkage.Decimal
