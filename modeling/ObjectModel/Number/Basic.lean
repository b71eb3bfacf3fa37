/-!
# Numbers

A `Number` is an IEEE 754 binary64 value: a single NaN, the two infinities, and the finite values by
sign and magnitude. Both zeros are kept apart, as `finite false 0` and `finite true 0`.

A magnitude is stored as its *rank*, its place in the ascending list of the finite non-negative
values. The rank is also what an encoded number holds below its sign bit, so every rank is a
magnitude and no two ranks stand for one value. Arithmetic is done on the exact value
`significand · 2 ^ exponent`, never on an approximation.

## What is equal to what

Structural equality of numbers is the *same value* relation: NaN is the same value as itself, and
`+0` is another value than `-0`. `Number.equals` is the comparison that programs write: NaN differs
from everything, and the zeros compare equal.
-/

namespace ObjectModel

-- powers of natural numbers and integers are the core's, whatever else is imported beside this module
attribute [instance (high), default_instance 20000] instPowNat

/-- The magnitude of a finite number, by its place among the finite non-negative values in ascending
order: `2047` runs of `2 ^ 52` magnitudes each, the first two runs with the same spacing. -/
structure Magnitude where
  /-- The place, counted from zero. -/
  rank : Nat
  rank_lt : rank < 2047 * 2 ^ 52
deriving DecidableEq

namespace Magnitude

/-- The magnitude of both zeros. -/
def zero : Magnitude := ⟨0, by decide⟩

/-- The integer factor: the place within its run, with the leading bit that every run but the first
has. -/
def significand (m : Magnitude) : Nat :=
  if m.rank < 2 ^ 52 then m.rank else 2 ^ 52 + m.rank % 2 ^ 52

/-- The binary exponent of the spacing in the magnitude's run. -/
def exponent (m : Magnitude) : Int :=
  (max (m.rank / 2 ^ 52) 1 : Nat) - 1075

/-- The exact value is `numerator / denominator`. -/
def numerator (m : Magnitude) : Nat :=
  m.significand * 2 ^ m.exponent.toNat

/-- The exact value is `numerator / denominator`; the denominator is a power of two. -/
def denominator (m : Magnitude) : Nat :=
  2 ^ (-m.exponent).toNat

/-- The integer part of the exact value. -/
def floor (m : Magnitude) : Nat :=
  m.numerator / m.denominator

/-- Whether the exact value has no fractional part. -/
def isInteger (m : Magnitude) : Bool :=
  m.numerator % m.denominator == 0

end Magnitude

/-- A binary64 number. -/
inductive Number where
  /-- Not a number. There is one such value: the payload of an encoded NaN is not kept. -/
  | nan
  /-- An infinity. -/
  | infinite (negative : Bool)
  /-- A finite number by sign and magnitude. -/
  | finite (negative : Bool) (magnitude : Magnitude)
deriving DecidableEq

namespace Number

/-- Positive zero. -/
def zero : Number := finite false Magnitude.zero

instance : Inhabited Number := ⟨zero⟩

/-- The number of the given sign and rank. The rank after the last finite one is that of infinity,
and so is every rank beyond it. -/
def ofRank (negative : Bool) (rank : Nat) : Number :=
  if h : rank < 2047 * 2 ^ 52 then finite negative ⟨rank, h⟩ else infinite negative

/-- Reads the encoded form: the sign bit above the rank. -/
def ofBits (bits : UInt64) : Number :=
  let negative := 2 ^ 63 ≤ bits.toNat
  let rank := bits.toNat % 2 ^ 63
  if rank ≤ 2047 * 2 ^ 52 then ofRank negative rank else nan

/-- The encoded form; NaN is written with the quiet bit alone. -/
def toBits : Number → UInt64
  | nan => 0x7FF8000000000000
  | infinite negative => .ofNat (negative.toNat * 2 ^ 63 + 2047 * 2 ^ 52)
  | finite negative m => .ofNat (negative.toNat * 2 ^ 63 + m.rank)

private theorem ofBits_eq_finite {bits : UInt64} {negative : Bool} {rank : Nat}
    (hrank : rank < 2047 * 2 ^ 52) (h : bits.toNat = negative.toNat * 2 ^ 63 + rank) :
    ofBits bits = finite negative ⟨rank, hrank⟩ := by
  have hmod : bits.toNat % 2 ^ 63 = rank := by omega
  have hsign : decide (2 ^ 63 ≤ bits.toNat) = negative := by
    cases negative <;> simp only [Bool.toNat_false, Bool.toNat_true] at h <;> simp <;> omega
  simp only [ofBits]
  rw [hmod, hsign, if_pos (Nat.le_of_lt hrank), ofRank, dif_pos hrank]

/-- The encoded form reads back. -/
theorem ofBits_toBits (x : Number) : ofBits x.toBits = x := by
  cases x with
  | nan => rfl
  | infinite negative => cases negative <;> rfl
  | finite negative m =>
    refine ofBits_eq_finite m.rank_lt ?_
    have := m.rank_lt
    have := Bool.toNat_le negative
    simp only [toBits, UInt64.toNat_ofNat']
    omega

/-- Whether the number is one of the two zeros. -/
def isZero : Number → Bool
  | finite _ m => m.rank == 0
  | _ => false

/-- The comparison that programs write: NaN equals nothing, and the two zeros are equal. -/
def equals (x y : Number) : Bool :=
  x != nan && (x == y || x.isZero && y.isZero)

/-- The number as an integer, if it is finite and has no fractional part. -/
def toInt? : Number → Option Int
  | finite negative m =>
    if m.isInteger then some (if negative then -(m.floor : Int) else m.floor) else none
  | _ => none

/-- The number as a signed 32-bit integer, if it is exactly one. -/
def toInt32? (x : Number) : Option Int :=
  x.toInt?.filter fun n => -2 ^ 31 ≤ n ∧ n < 2 ^ 31

/-- The unsigned 32-bit word of a number: the integer part, taken toward zero, modulo `2 ^ 32`. NaN
and the infinities have the word zero. -/
def toUint32 : Number → Nat
  | finite negative m =>
    ((if negative then -(m.floor : Int) else m.floor) % 2 ^ 32).toNat
  | _ => 0

/-- A word is below `2 ^ 32`. -/
theorem toUint32_lt (x : Number) : x.toUint32 < 2 ^ 32 := by
  cases x with
  | finite negative m =>
    simp only [toUint32]
    omega
  | nan | infinite _ => exact Nat.two_pow_pos 32

end Number

end ObjectModel
