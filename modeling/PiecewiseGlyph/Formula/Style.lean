import PiecewiseGlyph.Decimal.Layout
import PiecewiseGlyph.Outline.Segment
import PiecewiseGlyph.Text.Split

/-!
# Helper functions and styles

A formula draws its curves by calling two functions of the graph, one per degree. Each is a sum of
points weighted with Bernstein polynomials. What can be chosen about formulas is the number that
font units are divided by, and the names under which the graph has these functions.

* `Helper.weights` are the weights;
* `Helper.eval` is the function, and `Helper.definition` its defining equation;
* `Style.default` has the built-in choices;
* `Style.check` refuses a style that would make formulas meaningless.
-/

namespace PiecewiseGlyph

/-! ## Helper functions -/

/-- One weight: `coefficient * (1 - t) ^ complement * t ^ power`. -/
structure Weight where
  coefficient : Nat
  complement : Nat
  power : Nat
  deriving DecidableEq, Repr

/-- The helper functions. -/
inductive Helper
  | quadratic
  | cubic
  deriving DecidableEq, Repr

/-- The power of a coordinate. -/
def Scalar.pow {α : Type} [Scalar α] (a : α) : Nat → α
  | 0 => Scalar.ofNat 1
  | n + 1 => Scalar.pow a n * a

namespace Weight

/-- The value of a weight at a parameter. -/
def eval {α : Type} [Scalar α] (w : Weight) (t : α) : α :=
  Scalar.ofNat w.coefficient * Scalar.pow (Scalar.ofNat 1 - t) w.complement * Scalar.pow t w.power

/-- An exponent; first powers carry none. -/
def exponentText (base : String) : Nat → String
  | 0 => ""
  | 1 => base
  | n => base ++ "^\x7b" ++ n.repr ++ "\x7d"

/-- The weight, written before its point; a coefficient of one is left out. -/
def latex (w : Weight) : String :=
  (if w.coefficient = 1 then "" else w.coefficient.repr) ++
    exponentText "\\left(1-t\\right)" w.complement ++ exponentText "t" w.power

end Weight

namespace Helper

/-- The weights, in the order of the points. -/
def weights : Helper → List Weight
  | quadratic => [⟨1, 2, 0⟩, ⟨2, 1, 1⟩, ⟨1, 0, 2⟩]
  | cubic => [⟨1, 3, 0⟩, ⟨3, 2, 1⟩, ⟨3, 1, 2⟩, ⟨1, 0, 3⟩]

/-- The weighted sum of points. -/
def eval {α : Type} [Scalar α] (h : Helper) (points : List (Point α)) (t : α) : Point α :=
  (h.weights.zip points).foldr (fun (w, p) sum => w.eval t * p + sum) Point.origin

/-- The names of the points in a definition. -/
def pointNames : List String := ["a", "b", "c", "d"]

/-- The defining equation of the helper under a name. -/
def definition (h : Helper) (name : String) : String :=
  let points := pointNames.take h.weights.length
  name ++ "\\left(" ++ ",\\ ".intercalate (points ++ ["t"]) ++ "\\right)=" ++
    "+".intercalate (h.weights.zipWith (fun w p => w.latex ++ p) points)

end Helper

/-! ## Styles -/

/-- The choices about formulas. -/
structure Style (α : Type) where
  /-- Font units are divided by this number. -/
  normalization : α
  quadraticName : String
  cubicName : String
  deriving DecidableEq, Repr

/-- What is wrong with a style. -/
inductive StyleError
  | normalization (x : Float)
  | helperName
  deriving Repr

/-- The fault in words. -/
def StyleError.message : StyleError → String
  | normalization x =>
    "Invalid normalization: " ++ Layout.plain.write x ++ "\nIt must be a positive number."
  | helperName => "Bezier helper function names must not be empty"

/-- A divisor has to be a positive number. -/
def isDivisor (x : Float) : Bool := x.isFinite && !(x ≤ 0)

namespace Style

/-- The name of a helper function. -/
def helperName {α : Type} (style : Style α) : Helper → String
  | .quadratic => style.quadraticName
  | .cubic => style.cubicName

/-- The definitions of the helper functions under their names. -/
def helperDefinitions {α : Type} (style : Style α) : List String :=
  [Helper.quadratic, Helper.cubic].map fun h => h.definition (style.helperName h)

/-- The built-in choices. -/
def default : Style Float := ⟨1500, "b_\x7bezier2\x7d", "b_\x7bezier3\x7d"⟩

/-- Refuse a divisor that is no positive number, then a helper name that is blank. -/
def check (style : Style Float) : Except StyleError Unit :=
  if !isDivisor style.normalization then .error (.normalization style.normalization)
  else if Text.isAllBlank style.quadraticName.toList || Text.isAllBlank style.cubicName.toList then
    .error .helperName
  else .ok ()

end Style

end PiecewiseGlyph
