import ObjectModel.Number.Literal
import ObjectModel.Proofs.Number.Nearest
import Mathlib.Data.Nat.Digits.Defs

/-!
# Hexadecimal digits

A hexadecimal literal is accumulated digit by digit, with a rounding after each. This module says what
comes out for any number of digits.

* Below `2 ^ 53` the accumulated number is exact. From there on its neighbours are at least 2 apart, so
  sixteen times the number has neighbours at least 32 apart, and a digit behind it is less than half of
  that: it is rounded away (`roundsTo_append`). So the result is the rounding of `heldValue`, the number
  with zeros in place of those digits (`foldl_appendHexDigit`).
* The digits that are not held decide nothing unless what is held is itself a tie: both the value of the
  last held digit and half of the distance between the neighbours are powers of two, and the latter is
  the larger one (`RoundsTo.of_held`). A tie that is rounded up is rounded up with the digits, too. What
  remains is `DropsTie`, a tie that is rounded down although a digit behind it is not zero.
-/

namespace ObjectModel

/-- The natural number that hexadecimal digits denote, the most significant one first. -/
def hexValue (ds : List Nat) : Nat := Nat.ofDigits 16 ds.reverse

/-- What is held of a natural number and the next digit: from `2 ^ 53` on the digit counts as zero. -/
def holdDigit (n d : Nat) : Nat := if n < 2 ^ 53 then 16 * n + d else 16 * n

/-- What is held of the natural number that hexadecimal digits denote. -/
def heldValue (ds : List Nat) : Nat := ds.foldl holdDigit 0

/-- The natural number lies halfway between two neighbouring finite numbers, of which the lower one has
an even significand, `2 * m`, of 53 bits. -/
def IsLowTie (n : Nat) : Prop := ∃ m s, n = (4 * m + 1) * 2 ^ s ∧ 2 ^ 51 ≤ m ∧ m < 2 ^ 52 ∧ s ≤ 970

/-- Digits that are not held would have decided a tie that is rounded down without them. -/
def DropsTie (ds : List Nat) : Prop := heldValue ds ≠ hexValue ds ∧ IsLowTie (heldValue ds)

/-! ## Ranks of integers -/

/-- Ranks from that of a power of two on have values that are divisible by it, up to 53 bits. -/
theorem exists_rankValue_eq {r k : Nat} (h : (1075 + k) * 2 ^ 52 ≤ r) :
    ∃ z : Nat, rankValue r = 2 ^ k * z := by
  obtain ⟨j, hj⟩ : ∃ j, r / 2 ^ 52 = 1075 + k + j := ⟨r / 2 ^ 52 - (1075 + k), by omega⟩
  refine ⟨2 ^ j * (2 ^ 52 + r % 2 ^ 52), ?_⟩
  rw [rankValue, if_neg (by omega), hj, max_eq_left (by omega),
    show ((1075 + k + j : Nat) : Int) - 1075 = (k + j : Nat) by omega, zpow_natCast, pow_add]
  push_cast
  ring

/-- What is not below a value is not rounded to a lower rank. -/
theorem RoundsTo.rank_le {q : ℚ} {c r : Nat} (h : RoundsTo q c) (hr : rankValue r ≤ q) : r ≤ c := by
  by_contra hlt
  have hnext : rankValue (c + 1) ≤ rankValue r := rankValue_strictMono.monotone (by omega)
  have hstep := rankValue_strictMono (Nat.lt_add_one c)
  rcases h.above with habove | ⟨habove, -⟩ <;> linarith

/-- Rounding commutes with the multiplication by a power of two, except among the subnormal numbers. -/
theorem RoundsTo.scale {q : ℚ} {c : Nat} (h : RoundsTo q c) (hc : 2 ^ 52 < c) (k : Nat) :
    RoundsTo (2 ^ k * q) (c + k * 2 ^ 52) := by
  have hpos : (0 : ℚ) < 2 ^ k := by positivity
  have hparity : (c + k * 2 ^ 52) % 2 = c % 2 := by omega
  have hvalue := rankValue_add_runs hc.le k
  constructor
  · have hnext := rankValue_add_runs (r := c + 1) (by omega) k
    rw [hparity, show c + k * 2 ^ 52 + 1 = c + 1 + k * 2 ^ 52 by omega, hvalue, hnext]
    rcases h.above with habove | ⟨habove, heven⟩
    · have hscaled := mul_lt_mul_of_pos_left habove hpos
      exact Or.inl (by linarith)
    · exact Or.inr ⟨by linear_combination 2 ^ k * habove, heven⟩
  · intro b hb
    obtain ⟨p, rfl⟩ : ∃ p, c = p + 1 := ⟨c - 1, by omega⟩
    have hprev := rankValue_add_runs (r := p) (by omega) k
    rw [hparity, show b = p + k * 2 ^ 52 by omega, hvalue, hprev]
    rcases h.below p rfl with hbelow | ⟨hbelow, heven⟩
    · have hscaled := mul_lt_mul_of_pos_left hbelow hpos
      exact Or.inl (by linarith)
    · exact Or.inr ⟨by linear_combination 2 ^ k * hbelow, heven⟩

/-- A natural number below `2 ^ 53` is rounded to a rank with its own value. -/
theorem RoundsTo.eq_natCast {n c : Nat} (h : RoundsTo n c) (hn : n < 2 ^ 53) :
    rankValue c = n ∧ c < 2047 * 2 ^ 52 := by
  obtain ⟨m, -, hvalue⟩ := Number.ofNat_eq_finite hn
  have hrational := (m.rational_eq_natCast_iff n).2 hvalue
  rw [m.rational_eq_rankValue] at hrational
  have hself := roundsTo_rankValue m.rank
  rw [hrational] at hself
  rw [h.unique hself]
  exact ⟨hrational, m.rank_lt⟩

/-- A natural number from `2 ^ 53` on is rounded to a rank from there on. -/
theorem RoundsTo.le_of_two_pow {n c : Nat} (h : RoundsTo n c) {k : Nat} (hn : 2 ^ (52 + k) ≤ n) :
    (1075 + k) * 2 ^ 52 ≤ c := by
  refine h.rank_le ?_
  rw [rankValue_two_pow]
  exact_mod_cast hn

/-! ## One digit -/

/-- A digit behind a number that is not below `2 ^ 53` is rounded away. -/
theorem roundsTo_append {c : Nat} (hc : (1075 + 1) * 2 ^ 52 ≤ c) {d : Nat} (hd : d < 16) :
    RoundsTo (16 * rankValue c + d) (c + 4 * 2 ^ 52) := by
  have hd' : (d : ℚ) ≤ 15 := mod_cast Nat.le_of_lt_succ hd
  have hd0 : (0 : ℚ) ≤ d := Nat.cast_nonneg d
  have hvalue := rankValue_add_runs (r := c) (by omega) 4
  constructor
  · have hnext := rankValue_add_runs (r := c + 1) (by omega) 4
    have hstep : rankValue c + 2 ≤ rankValue (c + 1) := by
      rw [rankValue_succ]
      have hexp : (2 : ℚ) ^ (1 : Int) ≤ 2 ^ (((max (c / 2 ^ 52) 1 : Nat) : Int) - 1075) :=
        zpow_le_zpow_right₀ one_le_two (by omega)
      rw [zpow_one] at hexp
      linarith
    rw [show c + 4 * 2 ^ 52 + 1 = c + 1 + 4 * 2 ^ 52 by omega, hvalue, hnext]
    exact Or.inl (by linarith)
  · intro b hb
    obtain ⟨p, rfl⟩ : ∃ p, c = p + 1 := ⟨c - 1, by omega⟩
    have hprev := rankValue_add_runs (r := p) (by omega) 4
    have hstep := rankValue_strictMono (Nat.lt_add_one p)
    rw [show b = p + 4 * 2 ^ 52 by omega, hvalue, hprev]
    exact Or.inl (by linarith)

/-- A digit is appended to the number of a rank. -/
theorem Number.appendHexDigit_ofRank {c : Nat} (hc : c < 2047 * 2 ^ 52) (d : Nat) :
    ∃ c', (ofRank false c).appendHexDigit d = ofRank false c' ∧ RoundsTo (16 * rankValue c + d) c' := by
  obtain ⟨m, hm, hrank⟩ : ∃ m, ofRank false c = finite false m ∧ m.rank = c :=
    ⟨⟨c, hc⟩, dif_pos hc, rfl⟩
  have hpos : 0 < m.denominator := Nat.two_pow_pos _
  obtain ⟨c', hc', hround⟩ := nearest_roundsTo (16 * m.numerator + d * m.denominator) hpos
  refine ⟨c', ?_, ?_⟩
  · rw [hm, appendHexDigit, hc']
  · have hden : (m.denominator : ℚ) ≠ 0 := Nat.cast_ne_zero.2 hpos.ne'
    have hvalue : ((16 * m.numerator + d * m.denominator : Nat) : ℚ) / m.denominator
        = 16 * rankValue c + d := by
      rw [← hrank, ← m.rational_eq_rankValue, Magnitude.rational]
      push_cast
      field_simp
    rwa [hvalue] at hround

/-- From a held number and a digit the number of what is held is computed. -/
theorem RoundsTo.appendHexDigit {n c : Nat} (h : RoundsTo n c) {d : Nat} (hd : d < 16) :
    ∃ c', (Number.ofRank false c).appendHexDigit d = Number.ofRank false c'
      ∧ RoundsTo (holdDigit n d : Nat) c' := by
  rw [holdDigit]
  split
  · next hn =>
    -- the number is exact, so the digit is added to the number itself
    obtain ⟨hvalue, hfinite⟩ := h.eq_natCast hn
    obtain ⟨c', happend, hround⟩ := Number.appendHexDigit_ofRank hfinite d
    refine ⟨c', happend, ?_⟩
    rw [hvalue] at hround
    exact_mod_cast hround
  · next hn =>
    have hc : (1075 + 1) * 2 ^ 52 ≤ c := h.le_of_two_pow (Nat.le_of_not_lt hn)
    have hscaled := h.scale (by omega) 4
    refine ⟨c + 4 * 2 ^ 52, ?_, by exact_mod_cast hscaled⟩
    rcases Nat.lt_or_ge c (2047 * 2 ^ 52) with hfinite | htop
    · obtain ⟨c', happend, hround⟩ := Number.appendHexDigit_ofRank hfinite d
      rw [happend, hround.unique (roundsTo_append hc hd)]
    · rw [Number.ofRank, dif_neg (by omega), Number.ofRank, dif_neg (by omega)]
      rfl

/-! ## All digits -/

/-- The accumulated number is the rounding of what is held. -/
theorem foldl_appendHexDigit {ds : List Nat} (hds : ∀ d ∈ ds, d < 16) :
    ∃ c, ds.foldl Number.appendHexDigit Number.zero = Number.ofRank false c
      ∧ RoundsTo (heldValue ds) c := by
  induction ds using List.reverseRecOn with
  | nil =>
    refine ⟨0, rfl, ?_⟩
    have hzero := roundsTo_rankValue 0
    rw [rankValue_zero] at hzero
    exact_mod_cast hzero
  | append_singleton ds d ih =>
    obtain ⟨c, hc, hround⟩ := ih fun d hd => hds d (List.mem_append_left _ hd)
    have hd : d < 16 := hds d (List.mem_append_right _ List.mem_cons_self)
    rw [heldValue, List.foldl_concat, List.foldl_concat, hc]
    exact hround.appendHexDigit hd

/-- What is held differs from the number itself only behind its first 53 bits or more: it is their
number `a` with zeros for the `j` digits that follow. -/
theorem heldValue_spec {ds : List Nat} (hds : ∀ d ∈ ds, d < 16) :
    ∃ a j, heldValue ds = a * 16 ^ j ∧ heldValue ds ≤ hexValue ds ∧ hexValue ds < (a + 1) * 16 ^ j
      ∧ (j = 0 ∨ 2 ^ 53 ≤ a) := by
  induction ds using List.reverseRecOn with
  | nil => exact ⟨0, 0, rfl, le_rfl, Nat.zero_lt_one, Or.inl rfl⟩
  | append_singleton ds d ih =>
    obtain ⟨a, j, hheld, hle, hlt, hj⟩ := ih fun d hd => hds d (List.mem_append_left _ hd)
    have hd : d < 16 := hds d (List.mem_append_right _ List.mem_cons_self)
    have hvalue : hexValue (ds ++ [d]) = d + 16 * hexValue ds := by
      rw [hexValue, List.reverse_append, List.reverse_singleton, List.singleton_append, Nat.ofDigits_cons]
      rfl
    have hhold : heldValue (ds ++ [d]) = holdDigit (heldValue ds) d := by
      rw [heldValue, List.foldl_concat]
      rfl
    rw [hvalue, hhold, holdDigit]
    split
    · next hsmall =>
      -- nothing is lost yet
      have hj0 : j = 0 := by
        refine hj.resolve_right fun ha => ?_
        have hge : a ≤ a * 16 ^ j := Nat.le_mul_of_pos_right a (Nat.pow_pos (by omega))
        omega
      subst hj0
      exact ⟨16 * heldValue ds + d, 0, by omega, by omega, by omega, Or.inl rfl⟩
    · next hlarge =>
      have ha : 2 ^ 53 ≤ a := by
        rcases hj with rfl | ha
        · omega
        · exact ha
      refine ⟨a, j + 1, ?_, by omega, ?_, Or.inr ha⟩
      · rw [hheld]
        ring
      · have hpow : (a + 1) * 16 ^ (j + 1) = 16 * ((a + 1) * 16 ^ j) := by ring
        omega

/-- Less than one unit more does not reach a common multiple that lies above. -/
private theorem lt_of_multiples {a n u x y : Nat} (hn : n < (a + 1) * u)
    (h : 2 * (a * u) < 2 * u * x + 2 * u * y) : 2 * n < 2 * u * x + 2 * u * y := by
  have hstep : a < x + y := by
    refine Nat.lt_of_mul_lt_mul_left (a := 2 * u) ?_
    linarith
  have hnext := Nat.mul_le_mul_right (2 * u) hstep
  linarith

/-- The number itself is rounded as what is held of it, unless that is a tie which is rounded down. -/
theorem RoundsTo.of_held {k n a j c : Nat} (h : RoundsTo k c) (hk : k = a * 16 ^ j) (hle : k ≤ n)
    (hlt : n < (a + 1) * 16 ^ j) (hj : j = 0 ∨ 2 ^ 53 ≤ a) :
    RoundsTo n c ∨ k < n ∧ (2 * k : ℚ) = rankValue c + rankValue (c + 1) ∧ c % 2 = 0 := by
  rcases hle.eq_or_lt with rfl | hkn
  · exact Or.inl h
  · have ha : 2 ^ 53 ≤ a := by
      refine hj.resolve_left ?_
      rintro rfl
      omega
    have hcast : (k : ℚ) < n := mod_cast hkn
    have hpow : (2 : Nat) ^ (4 * j + 1) = 2 * 16 ^ j := by
      rw [pow_succ, pow_mul]
      ring
    have hlarge : 2 ^ (52 + (4 * j + 1)) ≤ k := by
      calc 2 ^ (52 + (4 * j + 1)) = 2 ^ 53 * 16 ^ j := by
            rw [pow_add, hpow]
            ring
        _ ≤ a * 16 ^ j := Nat.mul_le_mul_right _ ha
        _ = k := hk.symm
    -- the values of the neighbours are even multiples of the value of the last digit that is held
    have hc := h.le_of_two_pow hlarge
    obtain ⟨z, hz⟩ := exists_rankValue_eq hc
    obtain ⟨z', hz'⟩ := exists_rankValue_eq (hc.trans (Nat.le_succ c))
    rcases h.above with habove | ⟨habove, heven⟩
    · left
      constructor
      · left
        rw [hz, hz'] at habove ⊢
        have hnat : 2 * k < 2 ^ (4 * j + 1) * z + 2 ^ (4 * j + 1) * z' := by exact_mod_cast habove
        rw [hk, hpow] at hnat
        have hgoal := lt_of_multiples hlt hnat
        rw [← hpow] at hgoal
        exact_mod_cast hgoal
      · intro b hb
        rcases h.below b hb with hbelow | ⟨hbelow, -⟩ <;> exact Or.inl (by linarith)
    · exact Or.inr ⟨hkn, habove, heven⟩

/-- Halfway between two ranks of a run, of which the lower one is even, in natural numbers. -/
theorem rankValue_tie (s : Nat) {m : Nat} (hlow : 2 ^ 51 ≤ m) (hhigh : m < 2 ^ 52) :
    rankValue ((s + 1075) * 2 ^ 52 + 2 * m) + rankValue ((s + 1075) * 2 ^ 52 + 2 * m + 1)
      = 2 * ((4 * m + 1) * 2 ^ s : Nat) := by
  have hstep : (2 : ℚ) ^ (((s + 1075 : Nat) : Int) - 1074) = 2 ^ (s + 1) := by
    rw [show ((s + 1075 : Nat) : Int) - 1074 = (s + 1 : Nat) by omega, zpow_natCast]
  have hvalue := rankValue_grid (t := s + 1075) (q := 2 * m) (by omega) (Or.inl (by omega))
  have hnext := rankValue_grid (t := s + 1075) (q := 2 * m + 1) (by omega) (Or.inl (by omega))
  rw [hvalue, Nat.add_assoc, hnext, hstep]
  push_cast
  ring

/-- The ties that are rounded down are those with an even rank below them. -/
theorem isLowTie_iff {k c : Nat} (h : RoundsTo k c) (hk : 2 ^ 53 ≤ k) :
    IsLowTie k ↔ (2 * k : ℚ) = rankValue c + rankValue (c + 1) ∧ c % 2 = 0 ∧ c < 2047 * 2 ^ 52 := by
  constructor
  · rintro ⟨m, s, hkm, hlow, hhigh, hs⟩
    have htie := rankValue_tie s hlow hhigh
    rw [← hkm] at htie
    have hround : RoundsTo k ((s + 1075) * 2 ^ 52 + 2 * m) := by
      constructor
      · exact Or.inr ⟨htie.symm, by omega⟩
      · intro b hb
        have hprev : rankValue b < rankValue ((s + 1075) * 2 ^ 52 + 2 * m + 1) :=
          rankValue_strictMono (by omega)
        exact Or.inl (by linarith)
    rw [h.unique hround]
    exact ⟨htie.symm, by omega, by omega⟩
  · rintro ⟨htie, heven, hfinite⟩
    have hc : (1075 + 1) * 2 ^ 52 ≤ c := h.le_of_two_pow hk
    obtain ⟨s, m, rfl, hlow, hhigh⟩ :
        ∃ s m, c = (s + 1075) * 2 ^ 52 + 2 * m ∧ 2 ^ 51 ≤ m ∧ m < 2 ^ 52 :=
      ⟨c / 2 ^ 52 - 1076, (2 ^ 52 + c % 2 ^ 52) / 2, by omega, by omega, by omega⟩
    rw [rankValue_tie s hlow hhigh] at htie
    have hvalue : (k : ℚ) = ((4 * m + 1) * 2 ^ s : Nat) := by linarith
    exact ⟨m, s, Nat.cast_injective hvalue, hlow, hhigh, by omega⟩

/-! ## The Number value of the digits -/

/-- Finite ranks are told apart by their numbers. -/
theorem Number.ofRank_inj {c c' : Nat} (hc : c < 2047 * 2 ^ 52) (h : ofRank false c = ofRank false c') :
    c = c' := by
  rw [ofRank, dif_pos hc, ofRank] at h
  split at h
  · cases h
    rfl
  · cases h

/-- The number of what is held is the Number value of the number itself, unless what is held is a tie
that is rounded down. -/
theorem RoundsTo.isNumberValue_held {k n a j c : Nat} (h : RoundsTo k c) (hk : k = a * 16 ^ j)
    (hle : k ≤ n) (hlt : n < (a + 1) * 16 ^ j) (hj : j = 0 ∨ 2 ^ 53 ≤ a) :
    (Number.ofRank false c).IsNumberValue n ↔ ¬ (k ≠ n ∧ IsLowTie k) := by
  have hlarge : k < n → 2 ^ 53 ≤ k := by
    intro hkn
    rcases hj with rfl | ha
    · omega
    · exact ha.trans (hk ▸ Nat.le_mul_of_pos_right a (Nat.pow_pos (by omega)))
  rcases h.of_held hk hle hlt hj with hsame | ⟨hkn, htie, heven⟩
  · refine iff_of_true ((hsame.isNumberValue_iff (Nat.cast_nonneg n) _).2 rfl) ?_
    rintro ⟨hne, hlow⟩
    have hkn : k < n := Nat.lt_of_le_of_ne hle hne
    have hcast : (k : ℚ) < n := mod_cast hkn
    obtain ⟨htie, -⟩ := (isLowTie_iff h (hlarge hkn)).1 hlow
    rcases hsame.above with habove | ⟨habove, -⟩ <;> linarith
  · have hcast : (k : ℚ) < n := mod_cast hkn
    obtain ⟨c', -, hround⟩ := nearest_roundsTo n Nat.one_pos
    rw [Nat.cast_one, div_one] at hround
    rw [hround.isNumberValue_iff (Nat.cast_nonneg n), isLowTie_iff h (hlarge hkn)]
    rcases Nat.lt_or_ge c (2047 * 2 ^ 52) with hfinite | htop
    · -- the number itself is beyond the tie
      refine iff_of_false (fun heq => ?_) fun hnot => hnot ⟨hkn.ne, htie, heven, hfinite⟩
      rw [← Number.ofRank_inj hfinite heq] at hround
      rcases hround.above with habove | ⟨habove, -⟩ <;> linarith
    · -- both are infinity
      refine iff_of_true ?_ fun ⟨_, _, _, hfinite⟩ => absurd hfinite (by omega)
      have hstep := rankValue_strictMono (Nat.lt_add_one c)
      have hc' : c ≤ c' := hround.rank_le (by linarith)
      rw [Number.ofRank_of_le htop, Number.ofRank_of_le (htop.trans hc')]

/-- The accumulated number is the Number value of what is held of the digits. It is that of the number
which the digits denote unless a tie is dropped. -/
theorem isNumberValue_foldl {ds : List Nat} (hds : ∀ d ∈ ds, d < 16) :
    (ds.foldl Number.appendHexDigit Number.zero).IsNumberValue (heldValue ds)
      ∧ ((ds.foldl Number.appendHexDigit Number.zero).IsNumberValue (hexValue ds) ↔ ¬ DropsTie ds) := by
  obtain ⟨c, hc, hround⟩ := foldl_appendHexDigit hds
  obtain ⟨a, j, hheld, hle, hlt, hj⟩ := heldValue_spec hds
  rw [hc]
  exact ⟨(hround.isNumberValue_iff (Nat.cast_nonneg _) _).2 rfl,
    hround.isNumberValue_held hheld hle hlt hj⟩

end ObjectModel
