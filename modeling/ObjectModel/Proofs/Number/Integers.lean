import ObjectModel.Number.Rounding
import Mathlib.Algebra.Order.Ring.Nat
import Mathlib.Tactic.Ring

/-!
# Natural numbers among the numbers

A natural number below `2 ^ 53` is a number, without rounding. `rank_eq_iff` gives its one magnitude:
a significand of exactly 53 bits, shifted down to the number. Everything else follows from it.

* `toInt?_ofNat` and `toUint32_ofNat` read a small natural number back.
* `equals_ofNat_iff` says which numbers compare equal to one: those whose exact value is that integer,
  so `-0` beside `+0`, and no other number beside the one itself.
-/

namespace ObjectModel

namespace Magnitude

/-- An integer part without remainder is the exact value. -/
theorem floor_eq_iff (m : Magnitude) (n : Nat) :
    m.isInteger = true ∧ m.floor = n ↔ m.numerator = n * m.denominator := by
  have hpos : 0 < m.denominator := Nat.two_pow_pos _
  simp only [isInteger, floor, beq_iff_eq]
  constructor
  · rintro ⟨hmod, rfl⟩
    rw [Nat.div_mul_cancel (Nat.dvd_of_mod_eq_zero hmod)]
  · intro h
    rw [h]
    exact ⟨Nat.mul_mod_left .., Nat.mul_div_cancel _ hpos⟩

/-- The significand and the exponent of every run but the first. -/
theorem parts_of_run (m : Magnitude) {k f : Nat} (hk : 1 ≤ k) (hf : f < 2 ^ 52)
    (h : m.rank = k * 2 ^ 52 + f) :
    m.significand = 2 ^ 52 + f ∧ m.exponent = (k : Int) - 1075 := by
  have hdiv : m.rank / 2 ^ 52 = k := by omega
  have hmod : m.rank % 2 ^ 52 = f := by omega
  refine ⟨?_, ?_⟩
  · rw [significand, if_neg (by omega), hmod]
  · rw [exponent, hdiv, max_eq_left hk]

/-- The significand and the exponent of the first run. -/
theorem parts_of_lt (m : Magnitude) (h : m.rank < 2 ^ 52) :
    m.significand = m.rank ∧ m.exponent = -1074 := by
  refine ⟨if_pos h, ?_⟩
  rw [exponent, Nat.div_eq_of_lt h]
  rfl

/-- A number has its leading bit where its logarithm says. -/
private theorem log2_eq {n l : Nat} (hlow : 2 ^ l ≤ n) (hhigh : n < 2 ^ (l + 1)) : n.log2 = l := by
  have hne : n ≠ 0 := by
    have := Nat.two_pow_pos l
    omega
  have h1 : l ≤ n.log2 := (Nat.le_log2 hne).2 hlow
  have h2 : n.log2 < l + 1 := (Nat.log2_lt hne).2 hhigh
  omega

/-- Shifted up to 53 bits, a small positive number is a significand of a run but the first. -/
private theorem shifted_bounds {n : Nat} (hpos : n ≠ 0) (h : n < 2 ^ 53) :
    2 ^ 52 ≤ n * 2 ^ (52 - n.log2) ∧ n * 2 ^ (52 - n.log2) < 2 ^ 53 := by
  have hlog : n.log2 < 53 := (Nat.log2_lt hpos).2 h
  have hlow : 2 ^ n.log2 ≤ n := Nat.log2_self_le hpos
  have hhigh : n < 2 ^ (n.log2 + 1) := Nat.lt_log2_self
  have h52 : 2 ^ n.log2 * 2 ^ (52 - n.log2) = 2 ^ 52 := by
    rw [← pow_add, show n.log2 + (52 - n.log2) = 52 by omega]
  have h53 : 2 ^ (n.log2 + 1) * 2 ^ (52 - n.log2) = 2 ^ 53 := by
    rw [← pow_add, show n.log2 + 1 + (52 - n.log2) = 53 by omega]
  rw [← h52, ← h53]
  exact ⟨Nat.mul_le_mul_right _ hlow, Nat.mul_lt_mul_of_pos_right hhigh (Nat.two_pow_pos _)⟩

/-- A number that a shift brings to 53 bits has as many fewer by itself. -/
private theorem log2_add_of_shifted {n j : Nat} (hpos : n ≠ 0) (hlow : 2 ^ 52 ≤ n * 2 ^ j)
    (hhigh : n * 2 ^ j < 2 ^ 53) : n.log2 + j = 52 := by
  have hj : j < 53 := by
    have hone : 2 ^ j ≤ n * 2 ^ j := Nat.le_mul_of_pos_left _ (Nat.pos_of_ne_zero hpos)
    exact (Nat.pow_lt_pow_iff_right (by decide)).1 (Nat.lt_of_le_of_lt hone hhigh)
  have h52 : 2 ^ (52 - j) * 2 ^ j = 2 ^ 52 := by
    rw [← pow_add, show 52 - j + j = 52 by omega]
  have h53 : 2 ^ (52 - j + 1) * 2 ^ j = 2 ^ 53 := by
    rw [← pow_add, show 52 - j + 1 + j = 53 by omega]
  rw [← h52] at hlow
  rw [← h53] at hhigh
  have hlog : n.log2 = 52 - j :=
    log2_eq (Nat.le_of_mul_le_mul_right hlow (Nat.two_pow_pos j)) (Nat.lt_of_mul_lt_mul_right hhigh)
  omega

/-- The first run holds no positive integer. -/
private theorem numerator_ne_of_lt (m : Magnitude) {n : Nat} (hpos : n ≠ 0) (h : m.rank < 2 ^ 52) :
    m.numerator ≠ n * m.denominator := by
  intro hvalue
  obtain ⟨hs, he⟩ := m.parts_of_lt h
  have hup : m.exponent.toNat = 0 := by omega
  have hdown : 53 ≤ (-m.exponent).toNat := by omega
  have hp : 2 ^ 53 ≤ 2 ^ (-m.exponent).toNat := Nat.pow_le_pow_right (by decide) hdown
  have hn : 2 ^ (-m.exponent).toNat ≤ n * 2 ^ (-m.exponent).toNat :=
    Nat.le_mul_of_pos_left _ (Nat.pos_of_ne_zero hpos)
  rw [numerator, denominator, hs, hup, pow_zero, mul_one] at hvalue
  omega

/-- The one magnitude whose exact value is a given positive number below `2 ^ 53`. -/
theorem rank_eq_iff (m : Magnitude) {n : Nat} (hpos : n ≠ 0) (h : n < 2 ^ 53) :
    m.rank = (1022 + n.log2) * 2 ^ 52 + n * 2 ^ (52 - n.log2)
      ↔ m.numerator = n * m.denominator := by
  obtain ⟨hlow, hhigh⟩ := shifted_bounds hpos h
  have hlog : n.log2 < 53 := (Nat.log2_lt hpos).2 h
  simp only [numerator, denominator]
  constructor
  · intro hrank
    obtain ⟨f, hf⟩ := Nat.exists_eq_add_of_le hlow
    have hk : 1 ≤ 1023 + n.log2 := Nat.le_add_right_of_le (by decide)
    have hrun : m.rank = (1023 + n.log2) * 2 ^ 52 + f := by
      rw [hrank, hf]
      ring
    obtain ⟨hs, he⟩ := m.parts_of_run hk (by omega) hrun
    have hup : m.exponent.toNat = 0 := by omega
    have hdown : (-m.exponent).toNat = 52 - n.log2 := by omega
    rw [hs, hup, hdown, hf, pow_zero, mul_one]
  · intro hvalue
    have hge : 2 ^ 52 ≤ m.rank := Nat.le_of_not_lt fun hlt => m.numerator_ne_of_lt hpos hlt hvalue
    obtain ⟨hs, he⟩ := m.parts_of_run (k := m.rank / 2 ^ 52) (f := m.rank % 2 ^ 52)
      (by omega) (by omega) (by omega)
    have hsig : m.significand < 2 ^ 53 := by omega
    rcases Nat.lt_or_ge (m.rank / 2 ^ 52) 1075 with hk | hk
    · -- the significand is the number shifted up
      obtain ⟨j, hj⟩ : ∃ j, (-m.exponent).toNat = j := ⟨_, rfl⟩
      have hup : m.exponent.toNat = 0 := by omega
      rw [hup, hj, pow_zero, mul_one] at hvalue
      have hlogn : n.log2 + j = 52 := log2_add_of_shifted hpos (by omega) (by omega)
      rw [show 52 - n.log2 = j by omega, ← hvalue]
      omega
    · -- no room for a shift: the significand is the number
      obtain ⟨j, hj⟩ : ∃ j, m.exponent.toNat = j := ⟨_, rfl⟩
      have hdown : (-m.exponent).toNat = 0 := by omega
      rw [hdown, hj, pow_zero, mul_one] at hvalue
      have hj0 : j = 0 := by
        by_contra hne
        have hp : (2 : Nat) ^ 1 ≤ 2 ^ j := Nat.pow_le_pow_right (by decide) (by omega)
        have hm : 2 ^ 52 * 2 ^ 1 ≤ m.significand * 2 ^ j := Nat.mul_le_mul (by omega) hp
        omega
      subst hj0
      rw [pow_zero, mul_one] at hvalue
      have hlogn : n.log2 = 52 := log2_eq (by omega) (by omega)
      rw [hlogn, ← hvalue]
      omega

/-- Only the zeros have the exact value zero. -/
theorem rank_eq_zero_iff (m : Magnitude) : m.rank = 0 ↔ m.numerator = 0 * m.denominator := by
  rw [zero_mul, numerator, Nat.mul_eq_zero]
  constructor
  · intro h
    exact Or.inl (by rw [(m.parts_of_lt (by omega)).1, h])
  · rintro (h | h)
    · rw [significand] at h
      split at h <;> omega
    · exact absurd h (Nat.two_pow_pos _).ne'

end Magnitude

namespace Number

/-- A natural number below `2 ^ 53` is a number as it is. -/
theorem ofNat_eq_finite {n : Nat} (h : n < 2 ^ 53) :
    ∃ m : Magnitude, ofNat n = finite false m ∧ m.numerator = n * m.denominator := by
  rcases Nat.eq_zero_or_pos n with rfl | hn
  · exact ⟨Magnitude.zero, rfl, Magnitude.zero.rank_eq_zero_iff.1 rfl⟩
  · have hpos : n ≠ 0 := by omega
    have hlog : n.log2 < 53 := (Nat.log2_lt hpos).2 h
    obtain ⟨hlow, hhigh⟩ := Magnitude.shifted_bounds hpos h
    have hbinary : binaryLog n 1 = n.log2 := by
      have hle : 2 ^ n.log2 ≤ n := Nat.log2_self_le hpos
      have hone : Nat.log2 1 = 0 := rfl
      simp only [binaryLog, hone]
      rw [show (-((n.log2 : Int) - ((0 : Nat) : Int))).toNat = 0 by omega,
        show ((n.log2 : Int) - ((0 : Nat) : Int)).toNat = n.log2 by omega, if_neg (by omega)]
      omega
    have hdown : (-(max (binaryLog n 1 - 52) (-1074))).toNat = 52 - n.log2 := by omega
    have hup : (max (binaryLog n 1 - 52) (-1074)).toNat = 0 := by omega
    have hrun : (max (binaryLog n 1 - 52) (-1074) + 1074).toNat = 1022 + n.log2 := by omega
    have hround : roundQuotient (n * 2 ^ (52 - n.log2)) (1 * 2 ^ 0) = n * 2 ^ (52 - n.log2) := by
      simp [roundQuotient, Nat.mod_one]
    have hrank : (1022 + n.log2) * 2 ^ 52 + n * 2 ^ (52 - n.log2) < 2047 * 2 ^ 52 := by omega
    refine ⟨⟨_, hrank⟩, ?_, (Magnitude.rank_eq_iff _ hpos h).1 rfl⟩
    rw [ofNat, nearest, if_neg hpos]
    simp only [hdown, hup, hrun, hround]
    rw [ofRank, dif_pos hrank]

/-- The exact value of a magnitude that is a small number decides the magnitude. -/
private theorem eq_of_numerator {m m' : Magnitude} {n : Nat} (h : n < 2 ^ 53)
    (hm : m.numerator = n * m.denominator) (hm' : m'.numerator = n * m'.denominator) : m = m' := by
  have hrank : m.rank = m'.rank := by
    rcases Nat.eq_zero_or_pos n with rfl | hn
    · rw [m.rank_eq_zero_iff.2 hm, m'.rank_eq_zero_iff.2 hm']
    · rw [(m.rank_eq_iff (by omega) h).2 hm, (m'.rank_eq_iff (by omega) h).2 hm']
  cases m
  cases m'
  cases hrank
  rfl

/-- The integer of a number, in terms of its magnitude. -/
theorem toInt?_finite_iff (negative : Bool) (m : Magnitude) (n : Nat) :
    (finite negative m).toInt? = some (n : Int)
      ↔ m.numerator = n * m.denominator ∧ (negative = true → n = 0) := by
  rw [← m.floor_eq_iff, toInt?]
  cases m.isInteger <;> cases negative <;> simp
  omega

/-- A number compares equal to a natural number below `2 ^ 53` if its exact value is that number. -/
theorem equals_ofNat_iff {n : Nat} (h : n < 2 ^ 53) (x : Number) :
    (ofNat n).equals x = true ↔ x.toInt? = some (n : Int) := by
  obtain ⟨m, hm, hvalue⟩ := ofNat_eq_finite h
  have hzero : m.rank = 0 ↔ n = 0 := by
    rw [m.rank_eq_zero_iff, hvalue]
    simp [Magnitude.denominator]
  rw [hm]
  cases x with
  | nan => simp [equals, isZero, toInt?]
  | infinite s => simp [equals, isZero, toInt?]
  | finite s m' =>
    rw [toInt?_finite_iff]
    simp only [equals, isZero, bne_iff_ne, ne_eq, reduceCtorEq, not_false_eq_true, Bool.and_eq_true,
      Bool.or_eq_true, beq_iff_eq, finite.injEq, true_and, hzero]
    constructor
    · rintro (⟨rfl, rfl⟩ | ⟨rfl, hm'⟩)
      · exact ⟨hvalue, by simp⟩
      · exact ⟨m'.rank_eq_zero_iff.1 hm', fun _ => rfl⟩
    · rintro ⟨hm', hs⟩
      cases s with
      | false => exact Or.inl ⟨rfl, eq_of_numerator h hvalue hm'⟩
      | true =>
        obtain rfl := hs rfl
        exact Or.inr ⟨rfl, m'.rank_eq_zero_iff.2 hm'⟩

/-- The word of a number that is an integer. -/
theorem toUint32_of_toInt? {x : Number} {z : Int} (h : x.toInt? = some z) :
    x.toUint32 = (z % 2 ^ 32).toNat := by
  cases x with
  | nan => cases h
  | infinite s => cases h
  | finite s m =>
    rw [toInt?] at h
    split at h
    · cases h
      rfl
    · cases h

/-- A natural number below `2 ^ 53` reads back as an integer. -/
theorem toInt?_ofNat {n : Nat} (h : n < 2 ^ 53) : (ofNat n).toInt? = some (n : Int) := by
  obtain ⟨m, hm, hvalue⟩ := ofNat_eq_finite h
  rw [hm, toInt?_finite_iff]
  exact ⟨hvalue, by simp⟩

/-- A number with a positive integer value below `2 ^ 53` is that natural number. -/
theorem eq_ofNat_of_toInt? {n : Nat} (pos : 0 < n) (h : n < 2 ^ 53) {x : Number}
    (hx : x.toInt? = some (n : Int)) : x = ofNat n := by
  obtain ⟨m, hm, hvalue⟩ := ofNat_eq_finite h
  cases x with
  | nan => cases hx
  | infinite s => cases hx
  | finite s m' =>
    obtain ⟨hm', hs⟩ := (toInt?_finite_iff s m' n).1 hx
    have hpositive : s = false := Bool.eq_false_iff.2 fun htrue => Nat.ne_of_gt pos (hs htrue)
    rw [hm, hpositive, eq_of_numerator h hm' hvalue]

/-- A word reads back as a word. -/
theorem toUint32_ofNat {n : Nat} (h : n < 2 ^ 32) : (ofNat n).toUint32 = n := by
  rw [toUint32_of_toInt? (toInt?_ofNat (by omega))]
  omega

end Number

end ObjectModel
