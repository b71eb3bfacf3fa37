import ObjectModel.Number.Basic

/-!
# The shortest decimal of a number

A decimal *reads back* as a magnitude if it lies among the reals that round to it: between the points
halfway to the two neighbours, the points themselves included exactly when the significand is even.
`Magnitude.shortest` is the decimal with the fewest digits that reads back and, among those, the one
nearest to the magnitude. Two of them can be equally near; which one is taken is for the caller to
say.

The search goes by grids. On the grid of `n` digits only the two neighbours of the magnitude can be
the nearest point, so they are the only candidates, and the first grid with a candidate that reads
back is the answer's.
-/

namespace ObjectModel

/-- The decimal `digits · 10 ^ exponent`. -/
structure Decimal where
  digits : Nat
  exponent : Int
deriving DecidableEq

/-- Which of two equally near decimals is chosen. -/
inductive Tie where
  /-- The one with the even last digit. -/
  | toEven
  /-- The larger one. -/
  | up
deriving DecidableEq

/-- Compares `a · 10 ^ i` with `b · 2 ^ j`, exactly. -/
def compareScaled (a : Nat) (i : Int) (b : Nat) (j : Int) : Ordering :=
  compare (a * 10 ^ i.toNat * 2 ^ (-j).toNat) (b * 2 ^ j.toNat * 10 ^ (-i).toNat)

namespace Decimal

/-- Drops the trailing zeros of `digits` into the exponent. -/
def strip (digits : Nat) (exponent : Int) : Decimal :=
  if h : 0 < digits ∧ digits % 10 = 0 then
    strip (digits / 10) (exponent + 1)
  else
    ⟨digits, exponent⟩
termination_by digits
decreasing_by omega

end Decimal

namespace Magnitude

/-- Whether the neighbour below is only half as far away as the neighbour above: so it is at the
start of a run whose predecessor has the finer spacing. -/
def isRunStart (m : Magnitude) : Bool :=
  m.rank % 2 ^ 52 == 0 && 2 * 2 ^ 52 ≤ m.rank

/-- Whether the decimal lies among the reals that round to the magnitude. The ends of that interval
are taken in quarters of the spacing, so that both are integers. -/
def readsBack (m : Magnitude) (d : Decimal) : Bool :=
  let lower := 4 * m.significand - (if m.isRunStart then 1 else 2)
  let upper := 4 * m.significand + 2
  let closed := m.significand % 2 == 0
  let low := compareScaled d.digits d.exponent lower (m.exponent - 2)
  let high := compareScaled d.digits d.exponent upper (m.exponent - 2)
  (low == .gt || closed && low == .eq) && (high == .lt || closed && high == .eq)

/-- The place of the leading decimal digit: the least `k` with the magnitude below `10 ^ k`. The
first guess, from the binary logarithm, is never too large and at most two too small. -/
def decimalPlace (m : Magnitude) : Int :=
  let guess := ((m.significand.log2 : Int) + m.exponent) * 30103 / 100000
  let below (k : Int) : Bool := compareScaled 1 k m.significand m.exponent == .gt
  if below guess then guess else if below (guess + 1) then guess + 1 else guess + 2

/-- The integer part of the magnitude counted in units of `10 ^ exponent`. -/
def onGrid (m : Magnitude) (exponent : Int) : Nat :=
  (m.numerator * 10 ^ (-exponent).toNat) / (m.denominator * 10 ^ exponent.toNat)

/-- The better of the two neighbours of the magnitude on the grid of `10 ^ exponent`, if one of them
reads back. -/
def candidate (m : Magnitude) (tie : Tie) (exponent : Int) : Option Decimal :=
  let d := m.onGrid exponent
  let below : Decimal := ⟨d, exponent⟩
  let above : Decimal := ⟨d + 1, exponent⟩
  match m.readsBack below, m.readsBack above with
  | true, false => some below
  | false, true => some above
  | false, false => none
  | true, true =>
    match compareScaled (2 * d + 1) exponent (2 * m.significand) m.exponent, tie with
    | .gt, _ => some below
    | .lt, _ => some above
    | .eq, .up => some above
    | .eq, .toEven => some (if d % 2 = 0 then below else above)

/-- The shortest decimal that reads back as the magnitude, the nearest of those of its length.
Seventeen digits always suffice; were they ever not to, the exact value is a decimal too. -/
def shortest (m : Magnitude) (tie : Tie) : Decimal :=
  let place := m.decimalPlace
  let found := (List.range 17).findSome? fun n => m.candidate tie (place - (n + 1 : Nat))
  let d := found.getD
    ⟨m.significand * 2 ^ m.exponent.toNat * 5 ^ (-m.exponent).toNat, min m.exponent 0⟩
  Decimal.strip d.digits d.exponent

end Magnitude

end ObjectModel
