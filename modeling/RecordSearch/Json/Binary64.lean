/-!
# Binary64 numbers

The finite numbers of the 64-bit binary format, in exact arithmetic.

Input:
  * a ratio of natural numbers, or a decimal significand with a power of ten.

Algorithm:
  * a ratio is rounded once, to the nearest number of the format, a tie going to the even significand;
  * a decimal is read with at most two such roundings: its significand is rounded, then multiplied or divided by the
    rounded power of ten.
-/

namespace RecordSearch

/-- The number `± significand * 2 ^ exponent`; zero keeps its sign. -/
structure Binary64 where
  negative : Bool
  significand : Nat
  exponent : Int
deriving DecidableEq, Repr, Inhabited

namespace Binary64

/-- The least exponent of the format. -/
def leastExponent : Int := -1074

/-- The greatest exponent of the format. -/
def greatestExponent : Int := 971

/-- A power of a base; a negative exponent counts as zero. -/
def power (base : Nat) (e : Int) : Nat :=
  Nat.pow base e.toNat

/-- The least significand of 53 binary digits. -/
def leastFull : Nat := Nat.pow 2 52

/-- Zero with a sign. -/
def zero (negative : Bool) : Binary64 :=
  ⟨negative, 0, leastExponent⟩

/-- The quotient rounded to the nearest natural number, a tie going to the even one. -/
def divNearest (num den : Nat) : Nat :=
  let q := num / den
  let r := num % den
  if 2 * r < den ∨ (2 * r = den ∧ q % 2 = 0) then q else q + 1

/-- The quotient of `num / den` by `2 ^ e`, rounded to the nearest natural number. -/
def significandAt (num den : Nat) (e : Int) : Nat :=
  divNearest (num * power 2 (-e)) (den * power 2 e)

/-- The exponent at which the quotient of `num / den` has 53 binary digits, or the least exponent. -/
def exponentOf (num den : Nat) : Int :=
  let guess := max leastExponent ((num.log2 : Int) - den.log2 - 53)
  if num * power 2 (-guess) / (den * power 2 guess) < 2 * leastFull then guess else guess + 1

/-- The number nearest to `num / den`, unless it lies beyond the greatest finite one. -/
def ofRatio? (negative : Bool) (num den : Nat) : Option Binary64 :=
  if num = 0 then
    some (zero negative)
  else
    let e := exponentOf num den
    let m := significandAt num den e
    let (m, e) := if m = 2 * leastFull then (leastFull, e + 1) else (m, e)
    if greatestExponent < e then none else some ⟨negative, m, e⟩

/-- Numerator of the magnitude. -/
def num (x : Binary64) : Nat :=
  x.significand * power 2 x.exponent

/-- Denominator of the magnitude. -/
def den (x : Binary64) : Nat :=
  power 2 (-x.exponent)

/-- The product with a positive number, rounded. -/
def mul? (x y : Binary64) : Option Binary64 :=
  ofRatio? x.negative (x.num * y.num) (x.den * y.den)

/-- The quotient by a positive number, rounded. -/
def div? (x y : Binary64) : Option Binary64 :=
  ofRatio? x.negative (x.num * y.den) (x.den * y.num)

/-- The greatest power of ten in the format. -/
def greatestTenPower : Nat := 308

/-- The number nearest to a power of ten. -/
def tenPower? (k : Nat) : Option Binary64 :=
  ofRatio? false (Nat.pow 10 k) 1

/-- The number read from `± significand * 10 ^ exponent`; there is none beyond the range of the format. -/
def ofDecimal? (negative : Bool) (significand : Nat) (exponent : Int) : Option Binary64 := do
  let x ← ofRatio? negative significand 1
  let k := exponent.natAbs
  if 0 ≤ exponent then
    if k ≤ greatestTenPower then
      x.mul? (← tenPower? k)
    else if significand = 0 then
      x
    else
      none
  else if k ≤ greatestTenPower then
    x.div? (← tenPower? k)
  else if k ≤ 2 * greatestTenPower then
    (← x.div? (← tenPower? greatestTenPower)).div? (← tenPower? (k - greatestTenPower))
  else
    zero negative

end Binary64
end RecordSearch
