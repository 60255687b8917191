/-!
# Numerals

The written form of a number: an optional sign, then digits with an optional point and an optional
power of ten, or one of the words for infinity and for "not a number". At least one digit stands
before or after the point, and a power of ten has at least one digit.

* `Numeral.read?` reads a whole text as a numeral, exactly, without rounding;
* `Numeral.toRat?` is the rational number it denotes;
* `Numeral.toFloat` is the nearest binary64 number (`Float`).
-/

namespace PiecewiseGlyph

/-- What a numeral denotes: `± coefficient * 10 ^ exponent`, an infinity, or no number. -/
inductive Numeral
  | finite (negative : Bool) (coefficient : Nat) (exponent : Int)
  | infinite (negative : Bool)
  | notANumber
  deriving DecidableEq, Repr

namespace Numeral

/-- The value of a row of decimal digits. -/
def natOfDigits (digits : List Char) : Nat := Nat.ofDigitChars 10 digits 0

theorem isDigit_of_mem_repr {n : Nat} {c : Char} (hc : c ∈ n.repr.toList) : c.isDigit = true := by
  rw [Nat.toList_repr] at hc
  exact Nat.isDigit_of_mem_toDigits (by decide) (by decide) hc

theorem repr_ne_nil (n : Nat) : n.repr.toList ≠ [] := by
  rw [Nat.toList_repr]
  exact Nat.toDigits_ne_nil

/-- The digits of a natural number have its value. -/
theorem natOfDigits_repr (n : Nat) : natOfDigits n.repr.toList = n := by
  rw [Nat.toList_repr]
  exact Nat.ofDigitChars_ten_toDigits

/-- An optional sign: whether it is a minus, and what follows. -/
def splitSign : List Char → Bool × List Char
  | '-' :: cs => (true, cs)
  | '+' :: cs => (false, cs)
  | cs => (false, cs)

/-- The digits after a point, if a point is next, and what follows them. -/
def splitFraction : List Char → List Char × List Char
  | '.' :: cs => cs.span Char.isDigit
  | cs => ([], cs)

/-- A power of ten that fills the text: nothing, or `e` with an optional sign and digits. -/
def readPower? : List Char → Option Int
  | [] => some 0
  | c :: cs =>
    let (negative, digits) := splitSign cs
    if (c == 'e' || c == 'E') && !digits.isEmpty && digits.all Char.isDigit then
      some (if negative then -(natOfDigits digits : Int) else natOfDigits digits)
    else none

/-- Digits with an optional point and power of ten: coefficient and exponent. -/
def readMagnitude? (cs : List Char) : Option (Nat × Int) :=
  let (whole, rest) := cs.span Char.isDigit
  let (fraction, rest) := splitFraction rest
  let digits := whole ++ fraction
  if digits.isEmpty then none
  else (readPower? rest).map fun power => (natOfDigits digits, power - fraction.length)

/-- Read a text as a numeral. Words are read in either case. -/
def read? (cs : List Char) : Option Numeral :=
  let (negative, rest) := splitSign cs
  let word := rest.map Char.toLower
  if word = "inf".toList || word = "infinity".toList then some (infinite negative)
  else if word = "nan".toList then some notANumber
  else (readMagnitude? rest).map fun (coefficient, exponent) =>
    finite negative coefficient exponent

/-- The rational number denoted, if it is one. -/
def toRat? : Numeral → Option Rat
  | finite negative coefficient exponent =>
    let magnitude := (coefficient : Rat) * (10 : Rat) ^ exponent
    some (if negative then -magnitude else magnitude)
  | infinite _ => none
  | notANumber => none

/--
The nearest binary64 number, ties to even. Beyond 400 places before or after the point the
magnitude is larger than every finite one or rounds to zero, so that no power is formed there.
-/
def magnitudeToFloat (coefficient : Nat) (exponent : Int) : Float :=
  if coefficient = 0 then 0
  else
    let places := (Nat.toDigits 10 coefficient).length + exponent
    if 400 < places then 1 / 0
    else if places < -400 then 0
    else Float.ofScientific coefficient (exponent < 0) exponent.natAbs

/-- The binary64 number denoted; a minus makes the sign of zero negative too. -/
def toFloat : Numeral → Float
  | finite negative coefficient exponent =>
    let magnitude := magnitudeToFloat coefficient exponent
    if negative then -magnitude else magnitude
  | infinite negative => if negative then -(1 / 0) else 1 / 0
  | notANumber => 0 / 0

end Numeral

/-- Read a text as a binary64 number. -/
def readFloat? (text : String) : Option Float := (Numeral.read? text.toList).map Numeral.toFloat

end PiecewiseGlyph
