import ObjectModel.Number.Rounding
import ObjectModel.Text.Blank

/-!
# Reading numbers from text

`Number.ofText` is the conversion of a string to a number. Surrounding blanks are dropped; nothing
left is zero; otherwise the whole rest has to be one of

* `Infinity` with an optional sign,
* `0x` or `0X` and at least one hexadecimal digit,
* a decimal: an optional sign, digits on at least one side of an optional point, an optional
  exponent.

Every other text is NaN. A decimal is rounded once, from its exact value. A hexadecimal literal is
accumulated digit by digit with a rounding after each, so past 53 bits a digit is added to a value
that may already be rounded.
-/

namespace ObjectModel

/-- The value of a hexadecimal digit of either case. -/
def hexDigit? (c : Char) : Option Nat :=
  if '0' ≤ c ∧ c ≤ '9' then some (c.toNat - '0'.toNat)
  else if 'a' ≤ c ∧ c ≤ 'f' then some (c.toNat - 'a'.toNat + 10)
  else if 'A' ≤ c ∧ c ≤ 'F' then some (c.toNat - 'A'.toNat + 10)
  else none

/-- An optional sign and what follows it. -/
def splitSign : List Char → Bool × List Char
  | '-' :: cs => (true, cs)
  | '+' :: cs => (false, cs)
  | cs => (false, cs)

/-- An exponent part: absent, or its mark, an optional sign and at least one digit. -/
def readExponent : List Char → Option Int
  | [] => some 0
  | c :: cs =>
    let (negative, digits) := splitSign cs
    if (c == 'e' || c == 'E') && !digits.isEmpty && digits.all Char.isDigit then
      let n := Nat.ofDigitChars 10 digits 0
      some (if negative then -(n : Int) else n)
    else
      none

/-- A decimal without its sign: the digits of both sides of the point as one natural number, and the
power of ten that it is to be multiplied with. -/
def readDecimal (cs : List Char) : Option (Nat × Int) :=
  let whole := cs.takeWhile Char.isDigit
  let rest := cs.dropWhile Char.isDigit
  let (fraction, rest) := match rest with
    | '.' :: r => (r.takeWhile Char.isDigit, r.dropWhile Char.isDigit)
    | r => ([], r)
  if whole.isEmpty && fraction.isEmpty then
    none
  else
    (readExponent rest).map fun e =>
      (Nat.ofDigitChars 10 (whole ++ fraction) 0, e - fraction.length)

namespace Number

/-- Sixteen times a number plus a digit, rounded to the nearest number. -/
def appendHexDigit (x : Number) (digit : Nat) : Number :=
  match x with
  | finite _ m => nearest false (16 * m.numerator + digit * m.denominator) m.denominator
  | x => x

/-- The value of hexadecimal digits, rounded after each; NaN without a digit or with another
character among them. -/
def ofHexDigits (cs : List Char) : Number :=
  if cs.isEmpty then nan
  else ((cs.mapM hexDigit?).map (·.foldl appendHexDigit zero)).getD nan

/-- The value of a decimal or a signed infinity. -/
def ofSigned (cs : List Char) : Number :=
  let (negative, magnitude) := splitSign cs
  if magnitude = "Infinity".toList then
    infinite negative
  else
    match readDecimal magnitude with
    | some (digits, exponent) => ofDecimal negative digits exponent
    | none => nan

/-- The value of a text whose surrounding blanks are gone. -/
def ofTrimmed : List Char → Number
  | [] => zero
  | '0' :: 'x' :: cs => ofHexDigits cs
  | '0' :: 'X' :: cs => ofHexDigits cs
  | cs => ofSigned cs

/-- The number that a text denotes. -/
def ofText (text : String) : Number :=
  ofTrimmed (trimBlanks text.toList)

end Number

end ObjectModel
