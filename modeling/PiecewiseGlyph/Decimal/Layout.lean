import PiecewiseGlyph.Decimal.Shortest

/-!
# Laying out a number

How the digits of a number are written: with a point among them, or with a power of ten. Which form
is taken, which digits win a tie, and how the special values look, is a `Layout`; each output of the
program has its own.

* `Decimal.positional` and `Decimal.scientific` are the two forms;
* `Layout.write` writes a binary64 number by its shortest digits.
-/

namespace PiecewiseGlyph

namespace Decimal

/-- Digits with zeros as needed; `whole` follows a number that needs no point. -/
def positional (d : Decimal) (whole : String) : String :=
  let digits := d.digits
  if 0 ≤ d.exponent then
    String.ofList (digits ++ List.replicate d.exponent.toNat '0') ++ whole
  else
    let places := (-d.exponent).toNat
    if places < digits.length then
      let (before, after) := digits.splitAt (digits.length - places)
      String.ofList before ++ "." ++ String.ofList after
    else "0." ++ String.ofList (List.replicate (places - digits.length) '0' ++ digits)

/-- One digit before the point and a signed power of ten. -/
def scientific (d : Decimal) : String :=
  let power := d.leadingExponent
  let sign := if power < 0 then "-" else "+"
  match d.digits with
  | [] => ""
  | first :: [] => first.toString ++ "e" ++ sign ++ power.natAbs.repr
  | first :: rest =>
    first.toString ++ "." ++ String.ofList rest ++ "e" ++ sign ++ power.natAbs.repr

end Decimal

/-- The decisions of a number format. -/
structure Layout where
  /-- The digits of a number half way between two shortest decimals. -/
  tie : Tie
  /-- Is a number whose leading digit has this exponent written without a power of ten? -/
  isPositional : Int → Bool
  /-- What follows a number written without point and power. -/
  whole : String
  /-- The text of an infinity, after its sign. -/
  infinite : String
  /-- The text of what is no number. -/
  notANumber : String

/-- The sign bit of a binary64 number; `-0` has it. -/
def signBit (x : Float) : Bool := Nat.pow 2 63 ≤ x.toBits.toNat

/-- Write a number by its shortest digits. -/
def Layout.write (layout : Layout) (x : Float) : String :=
  if x.isNaN then layout.notANumber
  else
    let magnitude :=
      if x.isFinite then
        let d := Decimal.ofFloat layout.tie x
        if layout.isPositional d.leadingExponent then d.positional layout.whole else d.scientific
      else layout.infinite
    if signBit x then "-" ++ magnitude else magnitude

/-- Plain decimals: never a power of ten, no point in a whole number, and a tie away from zero. -/
def Layout.plain : Layout := ⟨.toLarger, fun _ => true, "", "inf", "NaN"⟩

end PiecewiseGlyph
