/-! Magnitudes of finite double-precision numbers, held exactly. -/

namespace Linkage.Decimal

/-- The magnitude `mantissa * 2 ^ exponent`. -/
structure Binary64 where
  mantissa : Nat
  exponent : Int
  deriving DecidableEq, Repr

/-- The whole number nearest to `num / den`; of two equally near the even one. -/
def roundHalfEven (num den : Nat) : Nat :=
  let whole := num / den
  let rest := num % den
  if 2 * rest < den then whole
  else if den < 2 * rest then whole + 1
  else whole + whole % 2

/-- Numerator and denominator of `num / den * 2 ^ k`. -/
def scaleByTwo (num den : Nat) (k : Int) : Nat × Nat :=
  match k with
  | .ofNat n => (num * Nat.pow 2 n, den)
  | .negSucc n => (num, den * Nat.pow 2 (n + 1))

namespace Binary64

/-- The exponent below which no magnitude is spaced more finely. -/
def leastExponent : Int := -1074

/-- The exponent of the largest magnitudes. -/
def greatestExponent : Int := 971

def zero : Binary64 := ⟨0, leastExponent⟩

/-- The `k` with `2 ^ k ≤ num / den < 2 ^ (k + 1)`, for a positive quotient. -/
def binaryOrder (num den : Nat) : Int :=
  let guess : Int := (num.log2 : Int) - (den.log2 : Int)
  let scaled := scaleByTwo num den (-guess)
  if scaled.2 ≤ scaled.1 then guess else guess - 1

/-- The magnitude nearest to `num / den`, unless it is too large for one. -/
def ofRatio? (num den : Nat) : Option Binary64 :=
  if num = 0 then some zero
  else
    let exponent := max (binaryOrder num den - 52) leastExponent
    let scaled := scaleByTwo num den (-exponent)
    let mantissa := roundHalfEven scaled.1 scaled.2
    let rounded : Binary64 :=
      if mantissa = Nat.pow 2 53 then ⟨Nat.pow 2 52, exponent + 1⟩ else ⟨mantissa, exponent⟩
    if greatestExponent < rounded.exponent then none else some rounded

def ofNat? (n : Nat) : Option Binary64 := ofRatio? n 1

def mul? (x y : Binary64) : Option Binary64 :=
  let scaled := scaleByTwo (x.mantissa * y.mantissa) 1 (x.exponent + y.exponent)
  ofRatio? scaled.1 scaled.2

def div? (x y : Binary64) : Option Binary64 :=
  let scaled := scaleByTwo x.mantissa y.mantissa (x.exponent - y.exponent)
  ofRatio? scaled.1 scaled.2

def powerOfTen? (n : Nat) : Option Binary64 := ofNat? (Nat.pow 10 n)

/-- The largest power of ten that is still a magnitude. -/
def greatestPower : Nat := 308

/-- `x * 10 ^ k` by one rounded multiplication or division where the power of ten is itself a
magnitude. A smaller power is reached by dividing by `10 ^ 308` first; a larger one is out of
range unless `x` is zero. -/
def timesPowerOfTen? (x : Binary64) (k : Int) : Option Binary64 :=
  if k < -greatestPower then
    if x.mantissa = 0 then some x
    else do
      let smaller ← x.div? (← powerOfTen? greatestPower)
      timesPowerOfTen? smaller (k + greatestPower)
  else if k < 0 then do x.div? (← powerOfTen? (-k).toNat)
  else if k ≤ greatestPower then do x.mul? (← powerOfTen? k.toNat)
  else if x.mantissa = 0 then some x
  else none
termination_by (-k).toNat
decreasing_by
  have : greatestPower = 308 := rfl
  omega

end Binary64

end Linkage.Decimal
