import ObjectModel.Proofs.Number.Integers
import Mathlib.Algebra.Order.Field.Rat
import Mathlib.Data.Rat.Cast.Order
import Mathlib.Tactic.Linarith

/-!
# The exact value of a number

A finite number stands for a rational. `Number.rational?` is that rational, and both zeros stand for zero.
What the arithmetic of numbers decides by integer division is stated here as a fact about rationals:
which numbers are integers, and which are 32-bit words.
-/

namespace ObjectModel

/-- The exact value of a magnitude. -/
def Magnitude.rational (m : Magnitude) : ℚ := m.numerator / m.denominator

/-- The exact value of a finite number. -/
def Number.rational? : Number → Option ℚ
  | finite negative m => some (if negative then -m.rational else m.rational)
  | _ => none

/-- The exact value of the number is a natural number below `2 ^ 32`. -/
def Number.IsWord (x : Number) (n : Nat) : Prop := n < 2 ^ 32 ∧ x.rational? = some (n : ℚ)

namespace Magnitude

/-- A magnitude is not negative. -/
theorem rational_nonneg (m : Magnitude) : 0 ≤ m.rational :=
  div_nonneg (Nat.cast_nonneg _) (Nat.cast_nonneg _)

/-- The exact value is a natural number if the numerator is that many denominators. -/
theorem rational_eq_natCast_iff (m : Magnitude) (n : Nat) :
    m.rational = n ↔ m.numerator = n * m.denominator := by
  have hpos : (m.denominator : ℚ) ≠ 0 := Nat.cast_ne_zero.2 (Nat.two_pow_pos _).ne'
  rw [rational, div_eq_iff hpos]
  exact_mod_cast Iff.rfl

end Magnitude

namespace Number

/-- A number reads as a natural number if that is its exact value. -/
theorem toInt?_eq_natCast_iff (x : Number) (n : Nat) :
    x.toInt? = some (n : Int) ↔ x.rational? = some (n : ℚ) := by
  cases x with
  | nan | infinite _ => simp [toInt?, rational?]
  | finite negative m =>
    rw [toInt?_finite_iff, ← m.rational_eq_natCast_iff, rational?, Option.some_inj]
    cases negative with
    | false => simp
    | true =>
      have hnonneg := m.rational_nonneg
      have hn : (0 : ℚ) ≤ n := Nat.cast_nonneg n
      constructor
      · rintro ⟨hm, hzero⟩
        rw [if_pos rfl, hm, hzero rfl, Nat.cast_zero, neg_zero]
      · intro hneg
        rw [if_pos rfl] at hneg
        have hzero : (n : ℚ) = 0 := by linarith
        exact ⟨by linarith, fun _ => Nat.cast_eq_zero.1 hzero⟩

/-- A number with a word for its exact value has that word. -/
theorem IsWord.toUint32 {x : Number} {n : Nat} (h : x.IsWord n) : x.toUint32 = n := by
  have hword := h.1
  rw [toUint32_of_toInt? ((toInt?_eq_natCast_iff x n).2 h.2)]
  omega

/-- A number compares equal to its word if its exact value is a word. -/
theorem equals_toUint32_iff (x : Number) :
    (ofNat x.toUint32).equals x = true ↔ ∃ n, x.IsWord n := by
  have hsafe : x.toUint32 < 2 ^ 53 := Nat.lt_trans x.toUint32_lt (by decide)
  rw [equals_ofNat_iff hsafe, toInt?_eq_natCast_iff]
  constructor
  · intro h
    exact ⟨_, x.toUint32_lt, h⟩
  · rintro ⟨n, h⟩
    rw [h.toUint32]
    exact h.2

end Number

end ObjectModel
