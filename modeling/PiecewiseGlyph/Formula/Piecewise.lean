import PiecewiseGlyph.Formula.Style
import PiecewiseGlyph.Outline.Basic

/-!
# Piecewise functions

The formula of a glyph, before it is written: a function of an origin, a parameter and a scale,
given by clauses that are tried in order. Each clause draws one segment while the parameter is below
its bound, a fraction in lowest terms; the last one has no bound. The glyph's label stands in the
subscript of the function's name.

* `Label.escape` writes a label: characters that would end the subscript or otherwise change the
  reading of the formula are written as commands;
* `Threshold.gcd` is the remainder algorithm for the greatest common divisor (`gcd_eq`), and
  `Threshold.ofShare` reduces a fraction. It never divides by zero (`one_le_divisor`), not even for
  the fraction of two zeros, which stays as it is;
* `Piecewise.ofOutline` makes the clauses of an outline;
* `Piecewise.eval` is what the body means: the first clause whose bound holds is drawn, with its
  helper function expanded;
* `Piecewise.latex` is the written form, given how numbers are written.
-/

namespace PiecewiseGlyph

/-! ## Labels -/

namespace Label

/-- How a character is written in a subscript. -/
def escapeChar (c : Char) : List Char :=
  if "\x7b\x7d_%#&$".toList.contains c then ['\\', c]
  else if c = '\\' then "\\backslash ".toList
  else if c = '^' then "\\hat\x7b\x7d".toList
  else if c = '~' then "\\sim ".toList
  else [c]

/-- How a label is written in a subscript. -/
def escape (label : String) : String := String.ofList (label.toList.flatMap escapeChar)

end Label

/-! ## Thresholds -/

/-- A fraction. -/
structure Threshold where
  numerator : Nat
  denominator : Nat
  deriving DecidableEq, Repr

namespace Threshold

/-- The greatest common divisor, by repeated remainders. -/
def gcd (a b : Nat) : Nat :=
  if b = 0 then a else gcd b (a % b)
  termination_by b
  decreasing_by exact Nat.mod_lt _ (by omega)

theorem gcd_eq (a b : Nat) : gcd a b = Nat.gcd a b := by
  fun_induction gcd a b with
  | case1 a => simp
  | case2 a b hb ih => rw [ih, Nat.gcd_comm b, ← Nat.gcd_rec, Nat.gcd_comm]

/-- What a fraction is reduced by. -/
def divisor (count total : Nat) : Nat := max (gcd count total) 1

theorem one_le_divisor (count total : Nat) : 1 ≤ divisor count total := Nat.le_max_right _ _

/-- The fraction `count / total` in lowest terms. -/
def ofShare (count total : Nat) : Threshold :=
  ⟨count / divisor count total, total / divisor count total⟩

/-- The quotient as a coordinate. -/
def value {α : Type} [Scalar α] (t : Threshold) : α :=
  Scalar.ofNat t.numerator / Scalar.ofNat t.denominator

/-- The fraction with a stroke. -/
def text (t : Threshold) : String := s!"{t.numerator}/{t.denominator}"

end Threshold

/-! ## Clauses -/

/-- The parameter within one clause: `factor * t - shift`. -/
structure LocalParameter where
  factor : Nat
  shift : Nat
  deriving DecidableEq, Repr

/-- One clause. -/
structure Clause (α : Type) where
  /-- The parameter stays below this fraction. -/
  bound : Option Threshold
  parameter : LocalParameter
  segment : Segment α
  deriving DecidableEq, Repr

/-- A function given by clauses. -/
structure Piecewise (α : Type) where
  label : String
  normalization : α
  clauses : List (Clause α)
  deriving DecidableEq, Repr

variable {α : Type} [Scalar α]

namespace Clause

/-- The clause of segment `k`, counted from 0, of `n`. -/
def ofSegment (n k : Nat) (segment : Segment α) : Clause α :=
  { bound := if k + 1 = n then none else some (Threshold.ofShare (k + 1) n)
    parameter := ⟨n, k⟩
    segment }

/-- Is the clause drawn at a parameter, if none before it is? -/
def applies (clause : Clause α) (t : α) : Bool := clause.bound.all fun b => Scalar.less t b.value

/-- The point drawn at a parameter, with helper functions expanded. -/
def eval (clause : Clause α) (t : α) : Point α :=
  let u := Scalar.ofNat clause.parameter.factor * t - Scalar.ofNat clause.parameter.shift
  match clause.segment with
  | .line p offset => p + u * offset
  | .quadratic p q r => Helper.quadratic.eval [p, q, r] u
  | .cubic p q r s => Helper.cubic.eval [p, q, r, s] u

end Clause

namespace Piecewise

/-- The clauses of segments, the first being segment `k` of `n`. -/
def clausesFrom (n k : Nat) : List (Segment α) → List (Clause α)
  | [] => []
  | s :: rest => Clause.ofSegment n k s :: clausesFrom n (k + 1) rest

/-- The function that draws an outline. -/
def ofOutline (label : String) (outline : Outline α) (style : Style α) : Piecewise α :=
  ⟨label, style.normalization, clausesFrom outline.size 0 outline.segments⟩

/-- The point at a parameter. -/
def eval (f : Piecewise α) (t : α) : Option (Point α) :=
  (f.clauses.find? (·.applies t)).map (·.eval t)

end Piecewise

/-! ## The written form -/

/-- A point or displacement. -/
def Point.latex (number : α → String) (p : Point α) : String :=
  "\\left(" ++ number p.x ++ ",\\ " ++ number p.y ++ "\\right)"

/-- The parameter as an argument. A shift of zero is left out. -/
def LocalParameter.latex (u : LocalParameter) : String :=
  u.factor.repr ++ "t" ++ if u.shift = 0 then "" else "-" ++ u.shift.repr

/-- The parameter as a factor: in brackets if it is a difference. -/
def LocalParameter.factorLatex (u : LocalParameter) : String :=
  if u.shift = 0 then u.latex else "\\left(" ++ u.latex ++ "\\right)"

/-- A call of a helper function. -/
def Helper.call (number : α → String) (style : Style α) (h : Helper) (points : List (Point α))
    (u : LocalParameter) : String :=
  style.helperName h ++ "\\left(" ++
    ",\\ ".intercalate (points.map (Point.latex number) ++ [u.latex]) ++ "\\right)"

namespace Clause

/-- The condition of a clause. -/
def condition (clause : Clause α) : String :=
  match clause.bound with
  | none => ""
  | some b =>
    "t<\\frac\x7b" ++ b.numerator.repr ++ "\x7d\x7b" ++ b.denominator.repr ++ "\x7d: "

/-- What a clause draws. -/
def body (number : α → String) (style : Style α) (clause : Clause α) : String :=
  match clause.segment with
  | .line p offset => p.latex number ++ "+" ++ clause.parameter.factorLatex ++ offset.latex number
  | .quadratic p q r => Helper.quadratic.call number style [p, q, r] clause.parameter
  | .cubic p q r s => Helper.cubic.call number style [p, q, r, s] clause.parameter

/-- A clause. -/
def latex (number : α → String) (style : Style α) (clause : Clause α) : String :=
  clause.condition ++ clause.body number style

end Clause

/-- The equation that defines the function. -/
def Piecewise.latex (number : α → String) (style : Style α) (f : Piecewise α) : String :=
  "g_\x7blyph" ++ Label.escape f.label ++
    "\x7d\\left(P,\\ t,\\ s_\x7bcale\x7d\\right)=P+\\frac\x7bs_\x7bcale\x7d\x7d\x7b" ++
    number f.normalization ++ "\x7d\\left\\\x7b" ++
    ",\\ ".intercalate (f.clauses.map (Clause.latex number style)) ++ "\\right\\\x7d"

end PiecewiseGlyph
