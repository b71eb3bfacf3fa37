import ObjectModel.Number.Basic

/-!
# Rounding to the nearest number

`Number.nearest` rounds an exact quotient of two natural numbers to the nearest binary64 number, a
tie going to the even significand. Every number that is computed or read from text goes through this
one function: the exact result first, then one rounding.

The rank of the result is the rounded significand counted from the start of its run. A significand
that rounds up to `2 ^ 53` lands on the first rank of the next run, and past the last run on
infinity, so neither case is special.
-/

namespace ObjectModel

/-- The quotient rounded to the nearest integer, a half to the even one. -/
def roundQuotient (num den : Nat) : Nat :=
  let q := num / den
  let r := num % den
  if 2 * r < den ∨ (2 * r = den ∧ q % 2 = 0) then q else q + 1

/-- The integer part of the binary logarithm of `num / den`, both positive. -/
def binaryLog (num den : Nat) : Int :=
  let l : Int := (num.log2 : Int) - den.log2
  if num * 2 ^ (-l).toNat < den * 2 ^ l.toNat then l - 1 else l

namespace Number

/-- The number nearest to `num / den` of the given sign. -/
def nearest (negative : Bool) (num den : Nat) : Number :=
  if num = 0 then
    finite negative Magnitude.zero
  else
    let e := max (binaryLog num den - 52) (-1074)
    let q := roundQuotient (num * 2 ^ (-e).toNat) (den * 2 ^ e.toNat)
    ofRank negative ((e + 1074).toNat * 2 ^ 52 + q)

/-- The number nearest to a natural number; below `2 ^ 53` it is that number. -/
def ofNat (n : Nat) : Number := nearest false n 1

/-- The number nearest to `digits · 10 ^ exponent`. Decimals that lie beyond every finite number, or
below half of the least positive one, are decided by their place alone. -/
def ofDecimal (negative : Bool) (digits : Nat) (exponent : Int) : Number :=
  let place := (Nat.toDigits 10 digits).length + exponent
  if digits = 0 ∨ place < -323 then
    finite negative Magnitude.zero
  else if place > 309 then
    infinite negative
  else
    nearest negative (digits * 10 ^ exponent.toNat) (10 ^ (-exponent).toNat)

end Number

end ObjectModel
