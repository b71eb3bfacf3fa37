import ObjectModel.Proofs.Number.Exact
import Mathlib.Algebra.Order.Field.Power
import Mathlib.Tactic.FieldSimp
import Mathlib.Tactic.LinearCombination
import Mathlib.Tactic.Positivity
import Mathlib.Tactic.Ring

/-!
# Rounding to the nearest number

`Number.IsNumberValue` says which number a rational is rounded to: among the finite numbers and the two
values `2 ^ 1024` and `-2 ^ 1024` that stand for the infinities, the one that is closest, and the one
with the even significand where two are. `isNumberValue_iff_nearest` shows that `Number.nearest`
computes it.

## Shape of the proof

Everything is said about ranks. `rankValue` is the exact value of a rank; it is strictly increasing, so
the rationals that are rounded to a rank form an interval, from halfway below it to halfway above it.
`RoundsTo` is that interval, with its ends where the rank is even. It has three uses:

* it has one rank for each rational (`RoundsTo.unique`), so a rank that is found in any way is the one
  that the rounding computes;
* it is reached by the rounding: the scaled quotient lies on the grid of a run, and on a grid the
  nearest integer is the nearest rank (`IsRounded.roundsTo`, `nearest_roundsTo`);
* it is the interval of the closest value (`RoundsTo.closest`, `RoundsTo.isNumberValue_iff`). Ranks go on
  behind the finite ones, and all of those are infinity, so an overflow is a rounding like any other.
-/

namespace ObjectModel

/-! ## The value of a rank -/

/-- The exact value of a rank. The ranks of the finite magnitudes are those below `2047 * 2 ^ 52`; the
runs go on behind them by the same rule, so the rank of infinity has the value `2 ^ 1024`. -/
def rankValue (rank : Nat) : ℚ :=
  ((if rank < 2 ^ 52 then rank else 2 ^ 52 + rank % 2 ^ 52 : Nat) : ℚ)
    * 2 ^ (((max (rank / 2 ^ 52) 1 : Nat) : Int) - 1075)

/-- A power of two with a signed exponent as a quotient of two with natural ones. -/
theorem two_zpow_eq (e : Int) : (2 : ℚ) ^ e = 2 ^ e.toNat / 2 ^ (-e).toNat := by
  rcases Int.le_total 0 e with h | h
  · rw [show (-e).toNat = 0 by omega, pow_zero, div_one, ← zpow_natCast,
      Int.toNat_of_nonneg h]
  · rw [Int.toNat_of_nonpos h, pow_zero, one_div, ← zpow_natCast, ← zpow_neg,
      Int.toNat_of_nonneg (by omega), neg_neg]

/-- A magnitude has the value of its rank. -/
theorem Magnitude.rational_eq_rankValue (m : Magnitude) : m.rational = rankValue m.rank := by
  have hscale := two_zpow_eq m.exponent
  rw [rational, numerator, denominator, Nat.cast_mul, Nat.cast_pow, Nat.cast_pow, Nat.cast_ofNat,
    mul_div_assoc, ← hscale]
  rfl

/-- The ranks of one run count its grid, up to and including the start of the next run. -/
theorem rankValue_grid {t q : Nat} (hq : q ≤ 2 ^ 53) (hlow : 2 ^ 52 ≤ q ∨ t = 0) :
    rankValue (t * 2 ^ 52 + q) = q * 2 ^ ((t : Int) - 1074) := by
  rcases Nat.lt_or_ge q (2 ^ 52) with hsmall | hlarge
  · obtain rfl : t = 0 := hlow.resolve_left (by omega)
    have hdiv : q / 2 ^ 52 = 0 := Nat.div_eq_of_lt hsmall
    rw [Nat.zero_mul, Nat.zero_add, rankValue, if_pos hsmall, hdiv]
    rfl
  · rcases Nat.lt_or_ge q (2 ^ 53) with hrun | hend
    · have hdiv : (t * 2 ^ 52 + q) / 2 ^ 52 = t + 1 := by omega
      have hsig : 2 ^ 52 + (t * 2 ^ 52 + q) % 2 ^ 52 = q := by omega
      rw [rankValue, if_neg (by omega), hdiv, hsig, max_eq_left (by omega)]
      congr 2
      push_cast
      ring
    · obtain rfl : q = 2 ^ 53 := by omega
      have hdiv : (t * 2 ^ 52 + 2 ^ 53) / 2 ^ 52 = t + 2 := by omega
      have hsig : 2 ^ 52 + (t * 2 ^ 52 + 2 ^ 53) % 2 ^ 52 = 2 ^ 52 := by omega
      have hexp : ((t + 2 : Nat) : Int) - 1075 = 1 + ((t : Int) - 1074) := by push_cast; ring
      rw [rankValue, if_neg (by omega), hdiv, hsig, max_eq_left (by omega), hexp,
        zpow_add₀ two_ne_zero, zpow_one]
      push_cast
      ring

/-- The next rank is one grid step further. -/
theorem rankValue_succ (r : Nat) :
    rankValue (r + 1) = rankValue r + 2 ^ (((max (r / 2 ^ 52) 1 : Nat) : Int) - 1075) := by
  obtain ⟨t, q, hr, hq, hlow, ht⟩ : ∃ t q, r = t * 2 ^ 52 + q ∧ q < 2 ^ 53 ∧ (2 ^ 52 ≤ q ∨ t = 0)
      ∧ max (r / 2 ^ 52) 1 = t + 1 := by
    rcases Nat.lt_or_ge r (2 ^ 52) with h | h
    · exact ⟨0, r, by omega, by omega, Or.inr rfl, by omega⟩
    · exact ⟨r / 2 ^ 52 - 1, 2 ^ 52 + r % 2 ^ 52, by omega, by omega, Or.inl (by omega), by omega⟩
  have hexp : ((t + 1 : Nat) : Int) - 1075 = (t : Int) - 1074 := by push_cast; ring
  rw [ht, hexp, hr, Nat.add_assoc, rankValue_grid (by omega) (by omega), rankValue_grid (by omega) hlow]
  push_cast
  ring

/-- Ranks are in the order of their values. -/
theorem rankValue_strictMono : StrictMono rankValue := by
  refine strictMono_nat_of_lt_succ fun r => ?_
  rw [rankValue_succ]
  exact lt_add_of_pos_right _ (by positivity)

/-- The rank of a power of two. -/
theorem rankValue_two_pow (k : Nat) : rankValue ((1075 + k) * 2 ^ 52) = 2 ^ (52 + k) := by
  have hgrid := rankValue_grid (t := 1074 + k) (q := 2 ^ 52) (by omega) (Or.inl le_rfl)
  rw [show (1075 + k) * 2 ^ 52 = (1074 + k) * 2 ^ 52 + 2 ^ 52 by omega, hgrid,
    show ((1074 + k : Nat) : Int) - 1074 = k by omega, zpow_natCast]
  push_cast
  ring

/-- The rank behind the last finite one. -/
theorem rankValue_top : rankValue (2047 * 2 ^ 52) = 2 ^ 1024 :=
  rankValue_two_pow 972

/-- A run further the same place has twice the value. -/
theorem rankValue_add_runs {r : Nat} (hr : 2 ^ 52 ≤ r) (k : Nat) :
    rankValue (r + k * 2 ^ 52) = 2 ^ k * rankValue r := by
  have hdiv : (r + k * 2 ^ 52) / 2 ^ 52 = r / 2 ^ 52 + k := by omega
  have hmod : (r + k * 2 ^ 52) % 2 ^ 52 = r % 2 ^ 52 := by omega
  have hexp : ((r / 2 ^ 52 + k : Nat) : Int) - 1075 = k + (((r / 2 ^ 52 : Nat) : Int) - 1075) := by
    push_cast
    ring
  rw [rankValue, rankValue, if_neg (by omega), if_neg (by omega), hdiv, hmod, max_eq_left (by omega),
    max_eq_left (by omega), hexp, zpow_add₀ two_ne_zero, zpow_natCast]
  ring

/-! ## The steps of the rounding -/

/-- A quotient whose sides are scaled by a power of two. -/
theorem scaled_quotient (num den : Nat) (e : Int) :
    ((num * 2 ^ (-e).toNat : Nat) : ℚ) / (den * 2 ^ e.toNat : Nat) = (num : ℚ) / den / 2 ^ e := by
  rw [two_zpow_eq]
  push_cast
  rcases Nat.eq_zero_or_pos den with rfl | hden
  · simp
  · have : (den : ℚ) ≠ 0 := Nat.cast_ne_zero.2 (by omega)
    field_simp

/-- An integer is nearest to a rational, and even if it is a half away from it. -/
structure IsRounded (y : ℚ) (q : Nat) : Prop where
  above : 2 * y < 2 * q + 1 ∨ 2 * y = 2 * q + 1 ∧ q % 2 = 0
  below : (2 * q : ℚ) < 2 * y + 1 ∨ (2 * q : ℚ) = 2 * y + 1 ∧ q % 2 = 0

/-- The rounded quotient is an integer nearest to the quotient. -/
theorem isRounded_roundQuotient (num : Nat) {den : Nat} (hden : 0 < den) :
    IsRounded ((num : ℚ) / den) (roundQuotient num den) := by
  have hspec : (2 * num < (2 * roundQuotient num den + 1) * den
        ∨ 2 * num = (2 * roundQuotient num den + 1) * den ∧ roundQuotient num den % 2 = 0)
      ∧ (2 * roundQuotient num den * den < 2 * num + den
        ∨ 2 * roundQuotient num den * den = 2 * num + den ∧ roundQuotient num den % 2 = 0) := by
    have hdiv : den * (num / den) + num % den = num := Nat.div_add_mod num den
    have hmod : num % den < den := Nat.mod_lt _ hden
    obtain ⟨q, hq⟩ : ∃ q, num / den = q := ⟨_, rfl⟩
    obtain ⟨r, hr⟩ : ∃ r, num % den = r := ⟨_, rfl⟩
    rw [hq, hr] at hdiv
    rw [hr] at hmod
    have hup : (2 * q + 1) * den = 2 * (den * q) + den := by ring
    have hup' : (2 * (q + 1) + 1) * den = 2 * (den * q) + 3 * den := by ring
    have hlow : 2 * q * den = 2 * (den * q) := by ring
    have hlow' : 2 * (q + 1) * den = 2 * (den * q) + 2 * den := by ring
    simp only [roundQuotient, hq, hr]
    split
    · rw [hup, hlow]
      omega
    · rw [hup', hlow']
      omega
  have hpos : (0 : ℚ) < den := Nat.cast_pos.2 hden
  obtain ⟨q, hq⟩ : ∃ q, roundQuotient num den = q := ⟨_, rfl⟩
  rw [hq] at hspec ⊢
  constructor
  · rw [← mul_div_assoc, div_lt_iff₀ hpos, div_eq_iff hpos.ne']
    exact_mod_cast hspec.1
  · rw [← mul_div_assoc, div_add_one hpos.ne', lt_div_iff₀ hpos, eq_div_iff hpos.ne']
    exact_mod_cast hspec.2

/-- The difference of two logarithms is the logarithm of the quotient, or one more than it. -/
private theorem quotient_bounds {num den : Nat} (hnum : num ≠ 0) (hden : den ≠ 0) :
    (2 : ℚ) ^ ((num.log2 : Int) - den.log2 - 1) ≤ (num : ℚ) / den
      ∧ (num : ℚ) / den < 2 ^ ((num.log2 : Int) - den.log2 + 1) := by
  have hnumLow : (2 : ℚ) ^ num.log2 ≤ num := mod_cast Nat.log2_self_le hnum
  have hnumHigh : (num : ℚ) < 2 ^ (num.log2 + 1) := mod_cast Nat.lt_log2_self
  have hdenLow : (2 : ℚ) ^ den.log2 ≤ den := mod_cast Nat.log2_self_le hden
  have hdenHigh : (den : ℚ) ≤ 2 ^ (den.log2 + 1) := mod_cast Nat.lt_log2_self.le
  have hpos : (0 : ℚ) < den := Nat.cast_pos.2 (Nat.pos_of_ne_zero hden)
  rw [le_div_iff₀ hpos, div_lt_iff₀ hpos]
  constructor
  · calc (2 : ℚ) ^ ((num.log2 : Int) - den.log2 - 1) * den
        ≤ 2 ^ ((num.log2 : Int) - den.log2 - 1) * 2 ^ (den.log2 + 1) := by gcongr
      _ = 2 ^ num.log2 := by
          rw [← zpow_natCast, ← zpow_natCast, ← zpow_add₀ two_ne_zero]
          congr 1
          push_cast
          ring
      _ ≤ num := hnumLow
  · calc (num : ℚ) < 2 ^ (num.log2 + 1) := hnumHigh
      _ = 2 ^ ((num.log2 : Int) - den.log2 + 1) * 2 ^ den.log2 := by
          rw [← zpow_natCast, ← zpow_natCast, ← zpow_add₀ two_ne_zero]
          congr 1
          push_cast
          ring
      _ ≤ 2 ^ ((num.log2 : Int) - den.log2 + 1) * den := by gcongr

/-- The binary logarithm of a quotient. -/
theorem binaryLog_spec {num den : Nat} (hnum : num ≠ 0) (hden : den ≠ 0) :
    (2 : ℚ) ^ binaryLog num den ≤ (num : ℚ) / den
      ∧ (num : ℚ) / den < 2 ^ (binaryLog num den + 1) := by
  obtain ⟨hlow, hhigh⟩ := quotient_bounds hnum hden
  simp only [binaryLog]
  obtain ⟨l, hl⟩ : ∃ l, (num.log2 : Int) - den.log2 = l := ⟨_, rfl⟩
  rw [hl] at hlow hhigh ⊢
  have htest : num * 2 ^ (-l).toNat < den * 2 ^ l.toNat ↔ (num : ℚ) / den < 2 ^ l := by
    have hpos : (0 : ℚ) < (den * 2 ^ l.toNat : Nat) :=
      Nat.cast_pos.2 (Nat.mul_pos (Nat.pos_of_ne_zero hden) (Nat.two_pow_pos _))
    rw [← div_lt_one (by positivity : (0 : ℚ) < 2 ^ l), ← scaled_quotient, div_lt_one hpos, Nat.cast_lt]
  split
  · next h =>
    rw [sub_add_cancel]
    exact ⟨hlow, htest.1 h⟩
  · next h => exact ⟨not_lt.1 (mt htest.2 h), hhigh⟩

/-! ## The reals that round to a rank -/

/-- The rationals that are rounded to a rank: those between the points halfway to the two neighbours,
and such a point itself if the rank is even. -/
structure RoundsTo (q : ℚ) (c : Nat) : Prop where
  above : 2 * q < rankValue c + rankValue (c + 1)
    ∨ 2 * q = rankValue c + rankValue (c + 1) ∧ c % 2 = 0
  below : ∀ b, c = b + 1 → rankValue b + rankValue c < 2 * q
    ∨ rankValue b + rankValue c = 2 * q ∧ c % 2 = 0

/-- A value of a rank is rounded to it. -/
theorem roundsTo_rankValue (c : Nat) : RoundsTo (rankValue c) c where
  above := by
    have hnext := rankValue_strictMono (Nat.lt_add_one c)
    exact Or.inl (by linarith)
  below := by
    rintro b rfl
    have hprev := rankValue_strictMono (Nat.lt_add_one b)
    exact Or.inl (by linarith)

/-- No rational is rounded to two ranks: neighbours are not both even. -/
theorem RoundsTo.unique {q : ℚ} {c c' : Nat} (h : RoundsTo q c) (h' : RoundsTo q c') : c = c' := by
  wlog hle : c ≤ c' generalizing c c'
  · exact (this h' h (Nat.le_of_not_le hle)).symm
  by_contra hne
  obtain ⟨b, rfl⟩ : ∃ b, c' = b + 1 := ⟨c' - 1, by omega⟩
  have hb : rankValue c ≤ rankValue b := rankValue_strictMono.monotone (by omega)
  have hc : rankValue (c + 1) ≤ rankValue (b + 1) := rankValue_strictMono.monotone (by omega)
  rcases h.above with habove | ⟨habove, heven⟩ <;> rcases h'.below b rfl with hbelow | ⟨hbelow, heven'⟩
  · linarith
  · linarith
  · linarith
  · have hvalue : rankValue b = rankValue c := by linarith
    have hrank := rankValue_strictMono.injective hvalue
    omega

/-- A rational on the grid of a run is rounded to a place of that grid. -/
private theorem IsRounded.le {y : ℚ} {q : Nat} (h : IsRounded y q) (hhigh : y < 2 ^ 53) : q ≤ 2 ^ 53 := by
  by_contra hgt
  have hcast : (2 ^ 53 + 1 : ℚ) ≤ q := mod_cast Nat.lt_of_not_le hgt
  rcases h.below with hbelow | ⟨hbelow, -⟩ <;> linarith

/-- A rational behind the start of a run is not rounded to a place before it. -/
private theorem IsRounded.ge {y : ℚ} {q : Nat} (h : IsRounded y q) (hlow : 2 ^ 52 ≤ y) : 2 ^ 52 ≤ q := by
  by_contra hlt
  have hcast : (q + 1 : ℚ) ≤ 2 ^ 52 := mod_cast Nat.lt_of_not_le hlt
  rcases h.above with habove | ⟨habove, -⟩ <;> linarith

/-- On the grid of a run the nearest integer is the nearest rank. The grid has the places up to `2 ^
53`, the first one of the next run; only the first run has the places below `2 ^ 52`. -/
theorem IsRounded.roundsTo {y : ℚ} {q : Nat} (h : IsRounded y q) {t : Nat} (hhigh : y < 2 ^ 53)
    (hlow : 2 ^ 52 ≤ y ∨ t = 0) : RoundsTo (y * 2 ^ ((t : Int) - 1074)) (t * 2 ^ 52 + q) := by
  have hq : q ≤ 2 ^ 53 := h.le hhigh
  have hq' : 2 ^ 52 ≤ q ∨ t = 0 := hlow.imp_left h.ge
  have hparity : (t * 2 ^ 52 + q) % 2 = q % 2 := by omega
  have hvalue := rankValue_grid hq hq'
  obtain ⟨u, hu, hpos⟩ : ∃ u, (2 : ℚ) ^ ((t : Int) - 1074) = u ∧ 0 < u := ⟨_, rfl, by positivity⟩
  rw [hu] at hvalue ⊢
  constructor
  · rw [hparity, hvalue]
    rcases Nat.lt_or_ge q (2 ^ 53) with hlt | hge
    · -- the next rank is the next place
      have hnext := rankValue_grid (t := t) (q := q + 1) hlt (by omega)
      rw [hu, ← Nat.add_assoc, Nat.cast_add_one] at hnext
      rw [hnext]
      rcases h.above with habove | ⟨habove, heven⟩
      · have hscaled := mul_lt_mul_of_pos_right habove hpos
        exact Or.inl (by linarith)
      · exact Or.inr ⟨by linear_combination u * habove, heven⟩
    · -- the last place is beyond the rational itself
      obtain rfl : q = 2 ^ 53 := Nat.le_antisymm hq hge
      have hnext := rankValue_strictMono (Nat.lt_add_one (t * 2 ^ 52 + 2 ^ 53))
      have hscaled := mul_lt_mul_of_pos_right hhigh hpos
      rw [hvalue] at hnext
      push_cast at hnext ⊢
      exact Or.inl (by linarith)
  · intro b hb
    rw [hparity, hvalue]
    by_cases hgrid : 2 ^ 52 < q ∨ t = 0
    · -- the rank before is the place before
      obtain ⟨p, rfl⟩ : ∃ p, q = p + 1 := ⟨q - 1, by omega⟩
      have hprev := rankValue_grid (t := t) (q := p) (by omega) (by omega)
      rw [hu, show t * 2 ^ 52 + p = b by omega] at hprev
      rw [hprev]
      rcases h.below with hbelow | ⟨hbelow, heven⟩
      · have hscaled := mul_lt_mul_of_pos_right hbelow hpos
        push_cast at hscaled ⊢
        exact Or.inl (by linarith)
      · push_cast at hbelow ⊢
        exact Or.inr ⟨by linear_combination u * hbelow, heven⟩
    · -- the start of the run is not beyond the rational
      obtain rfl : q = 2 ^ 52 := by omega
      have hprev := rankValue_strictMono (Nat.lt_add_one b)
      have hscaled := mul_le_mul_of_nonneg_right (hlow.resolve_right (by omega)) hpos.le
      rw [← hb, hvalue] at hprev
      push_cast at hprev ⊢
      exact Or.inl (by linarith)

/-- Rank zero is that of zero. -/
theorem rankValue_zero : rankValue 0 = 0 := by
  rw [rankValue, if_pos (by decide), Nat.cast_zero, zero_mul]

/-- The rounding of a quotient gives the rank that the quotient is rounded to. -/
theorem nearest_roundsTo (num : Nat) {den : Nat} (hden : 0 < den) :
    ∃ c, Number.nearest false num den = Number.ofRank false c ∧ RoundsTo ((num : ℚ) / den) c := by
  rcases Nat.eq_zero_or_pos num with rfl | hnum
  · refine ⟨0, rfl, ?_⟩
    rw [Nat.cast_zero, zero_div, ← rankValue_zero]
    exact roundsTo_rankValue 0
  · obtain ⟨hlow, hhigh⟩ := binaryLog_spec hnum.ne' hden.ne'
    obtain ⟨e, he⟩ : ∃ e, max (binaryLog num den - 52) (-1074) = e := ⟨_, rfl⟩
    obtain ⟨t, ht, hte⟩ : ∃ t, (e + 1074).toNat = t ∧ (t : Int) - 1074 = e := ⟨_, rfl, by omega⟩
    obtain ⟨x, hx⟩ : ∃ x, (num : ℚ) / den = x := ⟨_, rfl⟩
    rw [hx] at hlow hhigh ⊢
    have hpos : (0 : ℚ) < 2 ^ e := by positivity
    have hround : IsRounded (x / 2 ^ e) (roundQuotient (num * 2 ^ (-e).toNat) (den * 2 ^ e.toNat)) := by
      have h := isRounded_roundQuotient (num * 2 ^ (-e).toNat)
        (Nat.mul_pos hden (Nat.two_pow_pos e.toNat))
      rwa [scaled_quotient, hx] at h
    have hupper : x / 2 ^ e < 2 ^ 53 := by
      rw [div_lt_iff₀ hpos]
      calc x < 2 ^ (binaryLog num den + 1) := hhigh
        _ ≤ 2 ^ ((53 : Int) + e) := zpow_le_zpow_right₀ one_le_two (by omega)
        _ = 2 ^ 53 * 2 ^ e := by
            rw [zpow_add₀ two_ne_zero]
            rfl
    have hlower : 2 ^ 52 ≤ x / 2 ^ e ∨ t = 0 := by
      rcases Int.le_total (-1074) (binaryLog num den - 52) with h | h
      · refine Or.inl ?_
        rw [le_div_iff₀ hpos]
        calc (2 : ℚ) ^ 52 * 2 ^ e = 2 ^ ((52 : Int) + e) := by
              rw [zpow_add₀ two_ne_zero]
              rfl
          _ ≤ 2 ^ binaryLog num den := zpow_le_zpow_right₀ one_le_two (by omega)
          _ ≤ x := hlow
      · exact Or.inr (by omega)
    have hrank := hround.roundsTo hupper hlower
    rw [hte, div_mul_cancel₀ x hpos.ne'] at hrank
    refine ⟨_, ?_, hrank⟩
    rw [Number.nearest, if_neg hnum.ne']
    simp only [he, ht]

/-! ## The closest value -/

/-- Of two values the larger one is closer to what lies beyond their middle. -/
theorem closer_of_lt {a b q : ℚ} (hba : b < a) (h : b + a < 2 * q) : |a - q| < |b - q| := by
  have hb : b - q < 0 := by linarith
  rw [abs_of_neg hb, abs_lt]
  constructor <;> linarith

/-- Of two values the smaller one is closer to what lies before their middle. -/
theorem closer_of_gt {a b q : ℚ} (hab : a < b) (h : 2 * q < a + b) : |a - q| < |b - q| := by
  have hb : 0 < b - q := by linarith
  rw [abs_of_pos hb, abs_lt]
  constructor <;> linarith

/-- Two values are equally close to their middle. -/
theorem close_of_eq {a b q : ℚ} (h : 2 * q = a + b) : |a - q| = |b - q| := by
  rw [show a - q = -(b - q) by linarith, abs_neg]

/-- Among the values of ranks none is closer to a rational than that of the rank it is rounded to, and
if another one is as close, it is the even one of the two. -/
theorem RoundsTo.closest {q : ℚ} {c r : Nat} (h : RoundsTo q c) (hne : r ≠ c) :
    |rankValue c - q| < |rankValue r - q|
      ∨ |rankValue c - q| = |rankValue r - q| ∧ c % 2 = 0 ∧ r % 2 = 1 := by
  rcases Nat.lt_or_gt_of_ne hne with hlt | hgt
  · obtain ⟨b, rfl⟩ : ∃ b, c = b + 1 := ⟨c - 1, by omega⟩
    have hr : rankValue r ≤ rankValue b := rankValue_strictMono.monotone (by omega)
    have hrc : rankValue r < rankValue (b + 1) := rankValue_strictMono hlt
    rcases h.below b rfl with hbelow | ⟨hbelow, heven⟩
    · exact Or.inl (closer_of_lt hrc (by linarith))
    · rcases hr.lt_or_eq with hr | hr
      · exact Or.inl (closer_of_lt hrc (by linarith))
      · have hrank := rankValue_strictMono.injective hr
        exact Or.inr ⟨close_of_eq (by linarith), heven, by omega⟩
  · have hr : rankValue (c + 1) ≤ rankValue r := rankValue_strictMono.monotone hgt
    have hcr : rankValue c < rankValue r := rankValue_strictMono hgt
    rcases h.above with habove | ⟨habove, heven⟩
    · exact Or.inl (closer_of_gt hcr (by linarith))
    · rcases hr.lt_or_eq with hr | hr
      · exact Or.inl (closer_of_gt hcr (by linarith))
      · have hrank := rankValue_strictMono.injective hr
        exact Or.inr ⟨close_of_eq (by linarith), heven, by omega⟩

namespace Number

/-- The value for which a number can be chosen when a rational is rounded. The infinities stand for
`2 ^ 1024` and `-2 ^ 1024`; neither NaN nor negative zero can be chosen. -/
def choice? : Number → Option ℚ
  | nan => none
  | infinite negative => some (if negative then -2 ^ 1024 else 2 ^ 1024)
  | finite negative m =>
    if negative = true ∧ m.rank = 0 then none else some (if negative then -m.rational else m.rational)

/-- Whether the significand is even. Those of the infinities are. -/
def isEven : Number → Bool
  | nan => false
  | infinite _ => true
  | finite _ m => m.significand % 2 == 0

/-- The number is the Number value for a rational that is not negative: no other choice is closer to it,
and if another one is as close, this is the one with the even significand. -/
def IsNumberValue (q : ℚ) (x : Number) : Prop :=
  ∃ a, x.choice? = some a ∧ ∀ y b, y.choice? = some b → y ≠ x →
    |a - q| < |b - q| ∨ |a - q| = |b - q| ∧ x.isEven = true

/-- The value for which a number of a finite or the first infinite rank is chosen. -/
theorem choice?_ofRank {c : Nat} (hc : c ≤ 2047 * 2 ^ 52) :
    (ofRank false c).choice? = some (rankValue c) := by
  rw [ofRank]
  split
  · rw [choice?, if_neg (by simp), if_neg (by simp), Magnitude.rational_eq_rankValue]
  · obtain rfl : c = 2047 * 2 ^ 52 := by omega
    rw [choice?, if_neg (by simp), rankValue_top]

/-- The significand is even if the rank is. -/
theorem isEven_ofRank {c : Nat} (hc : c ≤ 2047 * 2 ^ 52) : (ofRank false c).isEven = (c % 2 == 0) := by
  rw [ofRank]
  split
  · have hparity : (if c < 2 ^ 52 then c else 2 ^ 52 + c % 2 ^ 52) % 2 = c % 2 := by split <;> omega
    rw [isEven, Magnitude.significand, hparity]
  · obtain rfl : c = 2047 * 2 ^ 52 := by omega
    rfl

/-- The ranks behind the finite ones are all infinity. -/
theorem ofRank_of_le {c : Nat} (hc : 2047 * 2 ^ 52 ≤ c) :
    ofRank false c = ofRank false (2047 * 2 ^ 52) := by
  rw [ofRank, ofRank, dif_neg (by omega), dif_neg (by omega)]

/-- A number is chosen for the value of its rank, or for a negative value. -/
theorem exists_rank_of_choice? {y : Number} {b : ℚ} (h : y.choice? = some b) :
    (∃ r, r ≤ 2047 * 2 ^ 52 ∧ y = ofRank false r ∧ b = rankValue r) ∨ b < 0 := by
  cases y with
  | nan => cases h
  | infinite negative =>
    cases negative with
    | false =>
      cases h
      exact Or.inl ⟨2047 * 2 ^ 52, le_rfl, rfl, rankValue_top.symm⟩
    | true =>
      rw [choice?, if_pos rfl, Option.some_inj] at h
      rw [← h]
      exact Or.inr (neg_neg_of_pos (by positivity))
  | finite negative m =>
    cases negative with
    | false =>
      rw [choice?, if_neg (by simp), Option.some_inj] at h
      refine Or.inl ⟨m.rank, m.rank_lt.le, ?_, ?_⟩
      · rw [ofRank, dif_pos m.rank_lt]
      · rw [← h, ← Magnitude.rational_eq_rankValue]
        rfl
    | true =>
      rw [choice?] at h
      split at h
      · cases h
      · next hrank =>
        have hpos : rankValue 0 < rankValue m.rank := rankValue_strictMono (by simp at hrank; omega)
        rw [rankValue_zero, ← Magnitude.rational_eq_rankValue] at hpos
        cases h
        exact Or.inr (by simpa using hpos)

end Number

/-- The value of a rank is not negative. -/
theorem rankValue_nonneg (r : Nat) : 0 ≤ rankValue r := by
  rw [← rankValue_zero]
  exact rankValue_strictMono.monotone (Nat.zero_le r)

/-- A rational is rounded to a rank of at most twice its value. -/
theorem RoundsTo.le {q : ℚ} {c : Nat} (h : RoundsTo q c) (nonneg : 0 ≤ q) : rankValue c ≤ 2 * q := by
  cases c with
  | zero =>
    rw [rankValue_zero]
    linarith
  | succ b =>
    have hb := rankValue_nonneg b
    rcases h.below b rfl with hbelow | ⟨hbelow, -⟩ <;> linarith

/-- The number that a rational is rounded to is closer to it than every other one, or as close as an odd
one and even. -/
private theorem RoundsTo.exists_closest {q : ℚ} {c : Nat} (h : RoundsTo q c) (nonneg : 0 ≤ q) :
    ∃ a, (Number.ofRank false c).choice? = some a
      ∧ ∀ y b, y.choice? = some b → y ≠ Number.ofRank false c →
        |a - q| < |b - q|
          ∨ |a - q| = |b - q| ∧ (Number.ofRank false c).isEven = true ∧ y.isEven = false := by
  rcases Nat.lt_or_ge (2047 * 2 ^ 52) c with hc | hc
  · -- a rank of infinity that is not the first one: the rational is beyond `2 ^ 1024`
    obtain ⟨b, rfl⟩ : ∃ b, c = b + 1 := ⟨c - 1, by omega⟩
    have hb : rankValue (2047 * 2 ^ 52) ≤ rankValue b := rankValue_strictMono.monotone (by omega)
    have hbc : rankValue b < rankValue (b + 1) := rankValue_strictMono (Nat.lt_add_one b)
    have htop : rankValue (2047 * 2 ^ 52) < q := by
      rcases h.below b rfl with hbelow | ⟨hbelow, -⟩ <;> linarith
    rw [Number.ofRank_of_le hc.le]
    refine ⟨_, Number.choice?_ofRank le_rfl, fun y a ha hne => Or.inl ?_⟩
    obtain ⟨r, hr, rfl, rfl⟩ | hneg := Number.exists_rank_of_choice? ha
    · have hrank : r < 2047 * 2 ^ 52 := Nat.lt_of_le_of_ne hr fun heq => hne (by rw [heq])
      have hlt := rankValue_strictMono hrank
      exact closer_of_lt hlt (by linarith)
    · have hvalue := rankValue_nonneg (2047 * 2 ^ 52)
      exact closer_of_lt (by linarith) (by linarith)
  · refine ⟨rankValue c, Number.choice?_ofRank hc, fun y b hb hne => ?_⟩
    obtain ⟨r, hr, rfl, rfl⟩ | hneg := Number.exists_rank_of_choice? hb
    · have hrank : r ≠ c := fun heq => hne (by rw [heq])
      refine (h.closest hrank).imp_right fun ⟨hclose, heven, hodd⟩ => ⟨hclose, ?_, ?_⟩
      · rw [Number.isEven_ofRank hc, heven]
        rfl
      · rw [Number.isEven_ofRank hr, hodd]
        rfl
    · have hvalue := rankValue_nonneg c
      have htwice := h.le nonneg
      exact Or.inl (closer_of_lt (by linarith) (by linarith))

/-- The Number value for a rational is the number that it is rounded to, and no other. -/
theorem RoundsTo.isNumberValue_iff {q : ℚ} {c : Nat} (h : RoundsTo q c) (nonneg : 0 ≤ q) (x : Number) :
    x.IsNumberValue q ↔ x = Number.ofRank false c := by
  obtain ⟨a, ha, hclosest⟩ := h.exists_closest nonneg
  constructor
  · rintro ⟨b, hb, hx⟩
    by_contra hne
    rcases hx _ a ha (Ne.symm hne) with hlt | ⟨heq, heven⟩
    · rcases hclosest x b hb hne with hlt' | ⟨heq', -⟩ <;> linarith
    · rcases hclosest x b hb hne with hlt' | ⟨-, -, hodd⟩
      · linarith
      · exact Bool.false_ne_true (hodd.symm.trans heven)
  · rintro rfl
    exact ⟨a, ha, fun y b hb hne => (hclosest y b hb hne).imp_right fun h => ⟨h.1, h.2.1⟩⟩

/-- The rounding of a quotient is its Number value, and no other number is. -/
theorem isNumberValue_iff_nearest (num : Nat) {den : Nat} (hden : 0 < den) (x : Number) :
    x.IsNumberValue (num / den) ↔ x = Number.nearest false num den := by
  obtain ⟨c, hc, hround⟩ := nearest_roundsTo num hden
  rw [hc]
  exact hround.isNumberValue_iff (by positivity) x

end ObjectModel
