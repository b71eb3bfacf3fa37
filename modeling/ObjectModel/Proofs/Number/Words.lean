import ObjectModel.Proofs.Number.Nearest
import Mathlib.Data.Rat.Floor

/-!
# Words of numbers

`Number.toUint32` takes the integer part of the exact value, toward zero, modulo `2 ^ 32`. A machine has
no exact value to take: it truncates the number, divides it by the number `2 ^ 32` with a remainder of the
sign of the dividend, adds `2 ^ 32` if the remainder is negative, and casts the result to a word. Each of
these steps has a number for its result, so each is a rounding, and the cast stops at the smallest and the
largest word. `Number.wordByArithmetic` is this computation.

It makes no error (`toUint32_exact`). A rounding leaves a value alone that a magnitude has
(`rational?_round`), and all the values on the way are of this kind: the integer part of a magnitude is one
(`exists_rational_floor`), and the remainders are integers below `2 ^ 53`. The last one is a word already,
so the cast does not stop early.
-/

namespace ObjectModel

/-- The integer part of a rational, toward zero. -/
def integerPart (q : ℚ) : ℤ := if q < 0 then ⌈q⌉ else ⌊q⌋

namespace Number

/-! ## Arithmetic with one rounding a step -/

/-- Whether the sign is negative. -/
def sign : Number → Bool
  | nan => false
  | infinite negative | finite negative _ => negative

/-- Whether the number is less than zero. -/
def isBelowZero (x : Number) : Bool := x.sign && !x.isZero

/-- The number without its sign. -/
def abs : Number → Number
  | nan => nan
  | infinite _ => infinite false
  | finite _ m => finite false m

/-- The number nearest to a rational. A zero has the given sign. -/
def round (negative : Bool) (q : ℚ) : Number :=
  nearest (if q = 0 then negative else decide (q < 0)) q.num.natAbs q.den

/-- The integer part, toward zero. -/
def trunc (x : Number) : Number :=
  match x.rational? with
  | some q => round x.sign (integerPart q)
  | none => x

/-- The remainder of a division whose quotient is taken toward zero. It has the sign of the dividend. -/
def rem (x y : Number) : Number :=
  match x.rational?, y.rational? with
  | some q, some d => if d = 0 then nan else round x.sign (q - d * integerPart (q / d))
  | some _, none => if y = nan then nan else x
  | none, _ => nan

/-- The sum. A number that is not finite absorbs one that is. -/
def add (x y : Number) : Number :=
  match x.rational?, y.rational? with
  | some q, some p => round (x.sign && y.sign) (q + p)
  | some _, none => y
  | none, some _ => x
  | none, none => if x = y then x else nan

/-- The remainder that is not negative. -/
def remEuclid (x y : Number) : Number :=
  let r := x.rem y
  if r.isBelowZero then r.add y.abs else r

/-- The number as a word: the integer part, or the word that is closest to it. -/
def castWord : Number → Nat
  | nan => 0
  | infinite negative => if negative then 0 else 2 ^ 32 - 1
  | finite negative m => if negative then 0 else min m.floor (2 ^ 32 - 1)

/-- The word of a number, step by step as a machine computes it. -/
def wordByArithmetic (x : Number) : Nat :=
  if x.rational?.isNone || x.isZero then 0 else (x.trunc.remEuclid (ofNat (2 ^ 32))).castWord

/-! ## Values that are numbers -/

/-- A rank is that of a magnitude if the number has the magnitude. -/
theorem ofRank_eq_finite_iff {negative : Bool} {c : Nat} {m : Magnitude} :
    ofRank negative c = finite negative m ↔ c = m.rank := by
  rw [ofRank]
  split
  · rw [finite.injEq, Magnitude.mk.injEq, and_iff_right rfl]
  · next hinfinite =>
    have hrank := m.rank_lt
    simp only [reduceCtorEq, false_iff]
    omega

/-- Both signs are rounded to the same rank. -/
theorem nearest_eq_ofRank (num den : Nat) :
    ∃ c, ∀ negative, nearest negative num den = ofRank negative c := by
  by_cases hnum : num = 0
  · refine ⟨0, fun negative => ?_⟩
    rw [nearest, if_pos hnum]
    rfl
  · exact ⟨_, fun negative => if_neg hnum⟩

/-- The value of a magnitude is rounded to that magnitude. -/
theorem nearest_of_rational {m : Magnitude} {num den : Nat} (hden : 0 < den)
    (h : m.rational = (num : ℚ) / den) (negative : Bool) : nearest negative num den = finite negative m := by
  obtain ⟨c, hc, hround⟩ := nearest_roundsTo num hden
  obtain ⟨c', hc'⟩ := nearest_eq_ofRank num den
  have hrank : c = m.rank := by
    rw [← h, Magnitude.rational_eq_rankValue] at hround
    exact hround.unique (roundsTo_rankValue m.rank)
  have hvalue : ofRank false c = finite false m := ofRank_eq_finite_iff.2 hrank
  rw [← hc, hc', ofRank_eq_finite_iff] at hvalue
  rw [hc', ofRank_eq_finite_iff]
  exact hvalue

/-- A rational that a number has for its exact value is rounded to itself. -/
theorem rational?_round {m : Magnitude} {q : ℚ} (h : m.rational = |q|) (negative : Bool) :
    (round negative q).rational? = some q := by
  have hquotient : m.rational = (q.num.natAbs : ℚ) / q.den := by
    have hnum : (q.num.natAbs : ℚ) = |(q.num : ℚ)| := by
      rw [Nat.cast_natAbs, Int.cast_abs]
    rw [h, hnum, ← Nat.abs_cast q.den, ← abs_div, Rat.num_div_den]
  rw [round, nearest_of_rational q.den_pos hquotient, rational?, Option.some_inj, h]
  rcases lt_trichotomy q 0 with hneg | rfl | hpos
  · simp [hneg, hneg.ne, abs_of_neg hneg]
  · simp
  · simp [hpos.ne', hpos.not_gt, abs_of_pos hpos]

end Number

/-- A natural number below `2 ^ 53` is the value of a magnitude. -/
theorem Magnitude.exists_rational_natCast {n : Nat} (h : n < 2 ^ 53) : ∃ m : Magnitude, m.rational = n := by
  obtain ⟨m, -, hvalue⟩ := Number.ofNat_eq_finite h
  exact ⟨m, (m.rational_eq_natCast_iff n).2 hvalue⟩

/-- Only rank zero has the value zero. -/
theorem Magnitude.rational_eq_zero_iff (m : Magnitude) : m.rational = 0 ↔ m.rank = 0 := by
  rw [m.rank_eq_zero_iff, ← m.rational_eq_natCast_iff, Nat.cast_zero]

/-- The integer part of a magnitude is the value of a magnitude: either there is no other part, or the number
is small. -/
theorem Magnitude.exists_rational_floor (m : Magnitude) : ∃ m' : Magnitude, m'.rational = m.floor := by
  by_cases hexponent : 0 ≤ m.exponent
  · have hden : m.denominator = 1 := by
      rw [denominator, Int.toNat_of_nonpos (by omega), Nat.pow_zero]
    refine ⟨m, ?_⟩
    rw [rational, floor, hden, Nat.div_one, Nat.cast_one, div_one]
  · have hnum : m.numerator = m.significand := by
      rw [numerator, Int.toNat_of_nonpos (by omega), Nat.pow_zero, Nat.mul_one]
    have hsignificand : m.significand < 2 ^ 53 := by
      rw [significand]
      split <;> omega
    have hfloor : m.floor ≤ m.numerator := Nat.div_le_self ..
    exact exists_rational_natCast (by omega)

namespace Number

/-- An integer of at most 53 bits is rounded to itself. -/
theorem rational?_round_intCast {z : ℤ} (small : |z| < 2 ^ 53) (negative : Bool) :
    (round negative z).rational? = some (z : ℚ) := by
  have hbits : z.natAbs < 2 ^ 53 := by
    rw [Int.abs_eq_natAbs] at small
    omega
  obtain ⟨m, hm⟩ := Magnitude.exists_rational_natCast hbits
  refine rational?_round (hm.trans ?_) negative
  rw [Nat.cast_natAbs, Int.cast_abs]

/-- A natural number of at most 53 bits has itself for its exact value. -/
theorem rational?_ofNat {n : Nat} (small : n < 2 ^ 53) : (ofNat n).rational? = some (n : ℚ) :=
  (toInt?_eq_natCast_iff _ n).1 (toInt?_ofNat small)

end Number

/-! ## Integer parts -/

/-- The integer parts of opposite rationals are opposite. -/
theorem integerPart_neg (q : ℚ) : integerPart (-q) = -integerPart q := by
  rcases lt_trichotomy q 0 with hneg | rfl | hpos
  · have hopposite : ¬ -q < 0 := not_lt.2 (neg_nonneg.2 hneg.le)
    rw [integerPart, if_neg hopposite, integerPart, if_pos hneg, Int.floor_neg]
  · rfl
  · have hopposite : -q < 0 := neg_lt_zero.2 hpos
    rw [integerPart, if_pos hopposite, integerPart, if_neg hpos.not_gt, Int.ceil_neg]

/-- An integer is its own integer part. -/
theorem integerPart_intCast (z : ℤ) : integerPart (z : ℚ) = z := by
  rw [integerPart, Int.ceil_intCast, Int.floor_intCast, ite_self]

/-- The integer part of a quotient of natural numbers. -/
theorem integerPart_natCast_div (n d : Nat) : integerPart ((n : ℚ) / d) = ((n / d : Nat) : ℤ) := by
  have hnonneg : (0 : ℚ) ≤ (n : ℚ) / d := by positivity
  rw [integerPart, if_neg hnonneg.not_gt, Rat.floor_natCast_div_natCast, Int.natCast_div]

/-- The integer part of a quotient is the division toward zero. -/
theorem integerPart_intCast_div (z : ℤ) (d : Nat) : integerPart ((z : ℚ) / d) = z.tdiv d := by
  obtain ⟨n, rfl | rfl⟩ := z.eq_nat_or_neg
  · rw [Int.cast_natCast, integerPart_natCast_div, Int.ofNat_tdiv]
  · rw [Int.cast_neg, Int.cast_natCast, neg_div, integerPart_neg, integerPart_natCast_div, Int.neg_tdiv,
      Int.ofNat_tdiv]

/-- The integer part of a magnitude with a sign. -/
theorem integerPart_signed (negative : Bool) (m : Magnitude) :
    integerPart (if negative then -m.rational else m.rational)
      = if negative then -(m.floor : ℤ) else m.floor := by
  have hfloor : integerPart m.rational = m.floor := integerPart_natCast_div m.numerator m.denominator
  cases negative with
  | false => exact hfloor
  | true =>
    rw [if_pos rfl, if_pos rfl, integerPart_neg, hfloor]

namespace Number

variable {x y : Number} {q : ℚ} {z : ℤ} {d : Nat}

/-- A number with an exact value is finite, and the value is that of its magnitude, with its sign. -/
theorem exists_finite (h : x.rational? = some q) :
    ∃ negative m, x = finite negative m ∧ (if negative then -m.rational else m.rational) = q := by
  cases x with
  | nan | infinite _ => cases h
  | finite negative m => exact ⟨negative, m, rfl, Option.some.inj h⟩

/-- The word of a finite number is the integer part of its exact value, modulo `2 ^ 32`. -/
theorem toUint32_eq_integerPart (h : x.rational? = some q) : (x.toUint32 : ℤ) = integerPart q % 2 ^ 32 := by
  obtain ⟨negative, m, rfl, rfl⟩ := exists_finite h
  rw [integerPart_signed, toUint32]
  omega

/-! ## The steps of the computation -/

/-- Truncation makes no error. -/
theorem rational?_trunc (h : x.rational? = some q) : x.trunc.rational? = some (integerPart q : ℚ) := by
  have htrunc : x.trunc = round x.sign (integerPart q) := by rw [trunc, h]
  obtain ⟨negative, m, -, rfl⟩ := exists_finite h
  obtain ⟨m', hm'⟩ := m.exists_rational_floor
  rw [htrunc]
  refine rational?_round (hm'.trans ?_) x.sign
  rw [integerPart_signed]
  cases negative <;> simp

/-- The remainder of an integer makes no error. -/
theorem rational?_rem (hx : x.rational? = some (z : ℚ)) (hy : y.rational? = some (d : ℚ)) (pos : 0 < d)
    (small : d < 2 ^ 53) : (x.rem y).rational? = some ((z.tmod d : ℤ) : ℚ) := by
  have hd : (d : ℚ) ≠ 0 := Nat.cast_ne_zero.2 (by omega)
  have hvalue : (z : ℚ) - d * integerPart (z / d) = (z.tmod d : ℤ) := by
    rw [integerPart_intCast_div, Int.tmod_def]
    push_cast
    rfl
  have hrem : x.rem y = round x.sign (z.tmod d : ℤ) := by
    rw [rem, hx, hy]
    show (if (d : ℚ) = 0 then nan else round x.sign ((z : ℚ) - d * integerPart (z / d))) = _
    rw [if_neg hd, hvalue]
  rw [hrem]
  have hlow : -(d : ℤ) < z.tmod d := Int.lt_tmod_of_pos z (by omega)
  have hhigh : z.tmod d < d := Int.tmod_lt_of_pos z (by omega)
  exact rational?_round_intCast (abs_lt.2 ⟨by omega, by omega⟩) x.sign

/-- A sum of integers makes no error if it has at most 53 bits. -/
theorem rational?_add {z' : ℤ} (hx : x.rational? = some (z : ℚ)) (hy : y.rational? = some (z' : ℚ))
    (small : |z + z'| < 2 ^ 53) : (x.add y).rational? = some ((z + z' : ℤ) : ℚ) := by
  have hadd : x.add y = round (x.sign && y.sign) (z + z' : ℤ) := by
    rw [add, hx, hy, Int.cast_add]
  rw [hadd]
  exact rational?_round_intCast small _

/-- The number without its sign has the absolute value. -/
theorem rational?_abs (h : x.rational? = some q) : x.abs.rational? = some |q| := by
  obtain ⟨negative, m, rfl, rfl⟩ := exists_finite h
  have hnonneg := m.rational_nonneg
  cases negative <;> simp [abs, rational?, abs_of_nonneg hnonneg]

/-- A number is less than zero if its exact value is. -/
theorem isBelowZero_iff (h : x.rational? = some q) : x.isBelowZero = true ↔ q < 0 := by
  obtain ⟨negative, m, rfl, rfl⟩ := exists_finite h
  have hnonneg := m.rational_nonneg
  cases negative with
  | false => simpa [isBelowZero, sign] using hnonneg
  | true => simp [isBelowZero, sign, isZero, ← m.rational_eq_zero_iff, hnonneg.lt_iff_ne']

/-- The remainder that is not negative makes no error. -/
theorem rational?_remEuclid (hx : x.rational? = some (z : ℚ)) (hy : y.rational? = some (d : ℚ)) (pos : 0 < d)
    (small : d < 2 ^ 53) : (x.remEuclid y).rational? = some ((z % d : ℤ) : ℚ) := by
  have hrem := rational?_rem hx hy pos small
  have hhigh : z.tmod d < d := Int.tmod_lt_of_pos z (by omega)
  have hsame : z % d = z.tmod d % d := by
    conv_lhs => rw [← Int.tmod_add_mul_tdiv z d, Int.add_mul_emod_self_left]
  by_cases hneg : z.tmod d < 0
  · -- the remainder is brought up by the divisor
    have hbelow : (x.rem y).isBelowZero = true := (isBelowZero_iff hrem).2 (Int.cast_lt_zero.2 hneg)
    have habs : y.abs.rational? = some ((d : ℤ) : ℚ) := by
      rw [rational?_abs hy, Nat.abs_cast, Int.cast_natCast]
    have hlow : -(d : ℤ) < z.tmod d := Int.lt_tmod_of_pos z (by omega)
    have hmod : z % d = z.tmod d + d := by
      rw [hsame, ← Int.add_emod_right, Int.emod_eq_of_lt (by omega) (by omega)]
    rw [remEuclid, if_pos hbelow, hmod]
    exact rational?_add hrem habs (abs_lt.2 ⟨by omega, by omega⟩)
  · have hbelow : ¬ (x.rem y).isBelowZero = true := mt (isBelowZero_iff hrem).1 (by simpa using hneg)
    have hmod : z % d = z.tmod d := by
      rw [hsame, Int.emod_eq_of_lt (by omega) hhigh]
    rw [remEuclid, if_neg hbelow, hmod]
    exact hrem

/-- The cast of a word does not stop early. -/
theorem castWord_eq {n : Nat} (h : x.rational? = some (n : ℚ)) (word : n < 2 ^ 32) : x.castWord = n := by
  obtain ⟨negative, m, rfl, hn⟩ := exists_finite h
  have hfloor : (n : ℤ) = if negative then -(m.floor : ℤ) else m.floor := by
    rw [← integerPart_signed, hn]
    exact (integerPart_intCast n).symm
  rw [castWord]
  cases negative with
  | false =>
    simp only [Bool.false_eq_true, if_false] at hfloor ⊢
    omega
  | true =>
    simp only [if_true] at hfloor ⊢
    omega

/-- The divisor of the computation. -/
theorem rational?_divisor : (ofNat (2 ^ 32)).rational? = some ((2 ^ 32 : Nat) : ℚ) :=
  rational?_ofNat (by decide)

/-- The remainder that the computation casts is the word. -/
theorem rational?_remEuclid_trunc (h : x.rational? = some q) :
    (x.trunc.remEuclid (ofNat (2 ^ 32))).rational? = some (x.toUint32 : ℚ) := by
  have hremainder := rational?_remEuclid (rational?_trunc h) rational?_divisor (by decide) (by decide)
  have hword : integerPart q % ((2 ^ 32 : Nat) : ℤ) = x.toUint32 := (toUint32_eq_integerPart h).symm
  rw [hremainder, hword, Int.cast_natCast]

/-- Zeros have the word zero. -/
theorem toUint32_of_isZero (h : x.isZero = true) : x.toUint32 = 0 := by
  cases x with
  | nan | infinite _ => cases h
  | finite negative m =>
    have hzero : (finite negative m).rational? = some ((0 : ℤ) : ℚ) := by
      rw [rational?, m.rational_eq_zero_iff.2 (beq_iff_eq.1 h), neg_zero, ite_self, Int.cast_zero]
    have hword := toUint32_eq_integerPart hzero
    rw [integerPart_intCast] at hword
    omega

/-- The computation makes no error. -/
theorem wordByArithmetic_eq (x : Number) : x.wordByArithmetic = x.toUint32 := by
  cases hvalue : x.rational? with
  | none =>
    rw [wordByArithmetic, hvalue]
    cases x with
    | nan | infinite _ => rfl
    | finite negative m => cases hvalue
  | some q =>
    rw [wordByArithmetic, hvalue, Option.isNone_some, Bool.false_or]
    by_cases hzero : x.isZero = true
    · rw [if_pos hzero, toUint32_of_isZero hzero]
    · rw [if_neg hzero]
      exact castWord_eq (rational?_remEuclid_trunc hvalue) x.toUint32_lt

/-- The word of a number, for all numbers. It is below `2 ^ 32`, and it is what a machine computes step by step.

NaN, the infinities and the zeros have the word zero. The word of a finite number is the integer part of its
exact value, toward zero, modulo `2 ^ 32`. No step of the computation makes an error: truncation leaves the
integer part, the remainder is that of the integer part, and the remainder that is not negative is the word, so
that its cast has nothing to stop at.

An integer of up to 52 bits can be brought up by `2 ^ 32` without error, and has the same word then. A word that
is made a number is its own word. -/
theorem toUint32_exact (x : Number) :
    x.toUint32 < 2 ^ 32
      ∧ x.wordByArithmetic = x.toUint32
      ∧ (x = nan ∨ (∃ negative, x = infinite negative) ∨ x.isZero = true → x.toUint32 = 0)
      ∧ (∀ q, x.rational? = some q →
        (x.toUint32 : ℤ) = integerPart q % 2 ^ 32
          ∧ x.trunc.rational? = some (integerPart q : ℚ)
          ∧ (x.trunc.rem (ofNat (2 ^ 32))).rational? = some (((integerPart q).tmod (2 ^ 32) : ℤ) : ℚ)
          ∧ (x.trunc.remEuclid (ofNat (2 ^ 32))).rational? = some (x.toUint32 : ℚ))
      ∧ (∀ z : ℤ, |z| < 2 ^ 52 → x.rational? = some (z : ℚ) →
        (x.add (ofNat (2 ^ 32))).rational? = some ((z + 2 ^ 32 : ℤ) : ℚ)
          ∧ (x.add (ofNat (2 ^ 32))).toUint32 = x.toUint32)
      ∧ ∀ n : Nat, n < 2 ^ 32 → (ofNat n).toUint32 = n := by
  refine ⟨x.toUint32_lt, x.wordByArithmetic_eq, ?zero, fun q h => ?exact, fun z small h => ?shifted,
    fun n => toUint32_ofNat⟩
  case zero =>
    rintro (rfl | ⟨negative, rfl⟩ | hzero)
    · rfl
    · rfl
    · exact toUint32_of_isZero hzero
  case exact =>
    have htrunc := rational?_trunc h
    exact ⟨toUint32_eq_integerPart h, htrunc, rational?_rem htrunc rational?_divisor (by decide) (by decide),
      rational?_remEuclid_trunc h⟩
  case shifted =>
    have hbits : |z + 2 ^ 32| < 2 ^ 53 := by
      rw [abs_lt] at small ⊢
      omega
    have hsum : (x.add (ofNat (2 ^ 32))).rational? = some ((z + 2 ^ 32 : ℤ) : ℚ) :=
      rational?_add h rational?_divisor hbits
    refine ⟨hsum, ?_⟩
    have hword := toUint32_eq_integerPart hsum
    have hword' := toUint32_eq_integerPart h
    rw [integerPart_intCast] at hword hword'
    omega

/-- The word of `-1.5` is the largest one, since the integer part is `-1`. -/
example : (nearest true 3 2).toUint32 = 2 ^ 32 - 1 ∧ (nearest true 3 2).wordByArithmetic = 2 ^ 32 - 1 := by
  decide +kernel

end Number

end ObjectModel
