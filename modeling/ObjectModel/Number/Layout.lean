import ObjectModel.Number.Shortest

/-!
# Number texts

A `Layout` collects the decisions that turn the shortest decimal of a number into text: which
magnitudes are written positionally, how a tie between two shortest decimals is settled, and how the
values without a decimal are spelled. There are two of them. `Layout.script` is the text that script
code sees; `Layout.plain` never uses an exponent and keeps the sign of zero.
-/

namespace ObjectModel

/-- The decisions of a number text. -/
structure Layout where
  /-- Whether a number is written positionally, by the power of ten of its leading digit. -/
  positional : Int → Bool
  /-- Which of two equally near shortest decimals is written. -/
  tie : Tie
  /-- Whether negative zero has a sign. -/
  signedZero : Bool
  /-- The spelling of infinity. -/
  infinity : String

namespace Layout

/-- Positional from `10 ^ -6` up to, but not including, `10 ^ 21`; with a signed exponent elsewhere;
both zeros are `0`. -/
def script : Layout where
  positional e := -7 < e && e < 21
  tie := .toEven
  signedZero := false
  infinity := "Infinity"

/-- Positional everywhere. -/
def plain : Layout where
  positional _ := true
  tie := .up
  signedZero := true
  infinity := "inf"

end Layout

namespace Decimal

/-- The digits with a point `point` places after the first of them; zeros fill the gap on either
side. -/
def positionalText (digits : List Char) (point : Int) : List Char :=
  if point ≤ 0 then
    '0' :: '.' :: (List.replicate (-point).toNat '0' ++ digits)
  else if digits.length ≤ point.toNat then
    digits ++ List.replicate (point.toNat - digits.length) '0'
  else
    digits.take point.toNat ++ '.' :: digits.drop point.toNat

/-- One digit, the others after a point if there are any, and the power of ten with its sign. -/
def exponentText (digits : List Char) (lead : Int) : List Char :=
  let fraction := if digits.length ≤ 1 then [] else '.' :: digits.drop 1
  let sign := if lead < 0 then '-' else '+'
  digits.take 1 ++ fraction ++ 'e' :: sign :: Nat.toDigits 10 lead.natAbs

/-- The text of a decimal: its leading digit decides the form. -/
def render (layout : Layout) (d : Decimal) : String :=
  let digits := Nat.toDigits 10 d.digits
  let lead := d.exponent + digits.length - 1
  .ofList <| if layout.positional lead then positionalText digits (lead + 1)
    else exponentText digits lead

end Decimal

/-- The text of a number under a layout. -/
def Number.render (layout : Layout) : Number → String
  | .nan => "NaN"
  | .infinite negative => (if negative then "-" else "") ++ layout.infinity
  | .finite negative m =>
    if m.rank = 0 then
      if negative && layout.signedZero then "-0" else "0"
    else
      (if negative then "-" else "") ++ (m.shortest layout.tie).render layout

end ObjectModel
