import PiecewiseGlyph.Decimal.Numeral

/-!
# Coordinates

Outlines are built over any type of numbers with the operations below, always in the same order of
operations. The program computes with binary64 numbers; the rational numbers give the same geometry
without rounding.

* `Scalar` collects the operations;
* the instances are `Float` and `Rat`.
-/

namespace PiecewiseGlyph

/-- Numbers that serve as coordinates and as curve parameters. -/
class Scalar (α : Type) extends Add α, Sub α, Mul α, Div α, BEq α where
  /-- The strict order. -/
  less : α → α → Bool
  /-- A natural number as a coordinate. -/
  ofNat : Nat → α
  /-- Is this a number in range? -/
  isFinite : α → Bool
  /-- The value of a numeral, if it has one. -/
  ofNumeral? : Numeral → Option α

namespace Scalar

variable {α : Type} [Scalar α]

/-- The number zero. -/
def zero : α := ofNat 0

/-- Read a text as a finite number. -/
def read? (cs : List Char) : Option α :=
  ((Numeral.read? cs).bind ofNumeral?).filter isFinite

/-- What is read is finite. -/
theorem isFinite_of_read? {cs : List Char} {x : α} (h : read? cs = some x) : isFinite x = true := by
  obtain ⟨-, h⟩ := Option.filter_eq_some_iff.mp h
  exact h

instance : Scalar Float where
  less a b := a < b
  ofNat := Float.ofNat
  isFinite := Float.isFinite
  ofNumeral? n := some n.toFloat

instance : Scalar Rat where
  less a b := a < b
  ofNat n := n
  isFinite _ := true
  ofNumeral? := Numeral.toRat?

end Scalar

end PiecewiseGlyph
