import Mathlib.Algebra.BigOperators.Group.List.Basic
import PiecewiseGlyph.Proofs.Formula.ReadBack
import PiecewiseGlyph.Proofs.Shares

/-!
# What formulas mean

A written formula is evaluated as a graph does it: its text and the texts of the two helper
definitions are read, the first branch whose condition holds is taken, and calls are expanded.

* `Definition` is what the text of a helper definition says; `readDefinition_definition` reads those
  of the built-in names, and `apply_definitionOf` compares them with the helper functions;
* `Expression.eval` and `Equation.eval` give the point at a parameter, and `pointAt?` all the way
  from texts;
* `eval_expression`: a branch draws what its clause draws, so that `pointAt?_latex` turns the text
  of a function into the function;
* `pointAt?_ofOutline`: the formula of an outline draws the outline, if every number is written as a
  plain decimal.
-/

namespace PiecewiseGlyph.Reading

variable {α β : Type}

/-! ## Helper definitions -/

/-- What the text of a helper definition says: a name, the letters of its parameters, and a sum of
weighted points. -/
structure Definition where
  name : List Char
  parameters : List Char
  terms : List (Weight × Char)
  deriving DecidableEq, Repr

/-- The exponent of a base, zero if the base is not next. -/
def readPower (base : List Char) : Reader Nat := fun cs =>
  match Text.dropWord? base cs with
  | none => some (0, cs)
  | some cs =>
    match Text.dropWord? "^\x7b".toList cs with
    | none => some (1, cs)
    | some cs => do
      let (n, cs) ← readNat cs
      let cs ← Text.dropWord? "\x7d".toList cs
      return (n, cs)

/-- A letter. -/
def readLetter : Reader Char
  | [] => none
  | c :: cs => if c.isAlpha then some (c, cs) else none

/-- A weighted point; a coefficient of one may be left out. -/
def readTerm : Reader (Weight × Char) := fun cs => do
  let (coefficient, cs) := (readNat cs).getD (1, cs)
  let (complement, cs) ← readPower "\\left(1-t\\right)".toList cs
  let (power, cs) ← readPower "t".toList cs
  let (point, cs) ← readLetter cs
  return ((⟨coefficient, complement, power⟩, point), cs)

/-- A whole helper definition. -/
def readDefinition (cs : List Char) : Option Definition := do
  let (name, cs) ← Text.splitAtWord? "\\left(".toList cs
  let (parameters, cs) ← readSeparated readLetter ",\\ ".toList cs
  let cs ← Text.dropWord? "\\right)=".toList cs
  let (terms, cs) ← readSeparated readTerm "+".toList cs
  if cs.isEmpty then return ⟨name, parameters, terms⟩ else none

/-! ## Values -/

/-- The number that a local parameter is. -/
def parameterValue (u : LocalParameter) (t : Rat) : Rat := u.factor * t - u.shift

/-- The value of a weight at a number. -/
def weightValue (w : Weight) (u : Rat) : Rat := w.coefficient * (1 - u) ^ w.complement * u ^ w.power

namespace Argument

/-- The argument as a point. -/
def point? : Argument β → Option (Point β)
  | point p => some p
  | parameter _ => none

/-- The argument as a number. -/
def number? (t : Rat) : Argument β → Option Rat
  | point _ => none
  | parameter u => some (parameterValue u t)

end Argument

/-- Apply a helper function to as many arguments as it has parameters: `t` is a number, and every
letter of its sum a point. -/
def Definition.apply (d : Definition) (args : List (Argument Rat)) (t : Rat) :
    Option (Point Rat) := do
  if d.parameters.length ≠ args.length then none
  let bound := d.parameters.zip args
  let u ← (bound.lookup 't').bind (Argument.number? t)
  let values ← d.terms.mapM fun (w, letter) => do
    let p ← (bound.lookup letter).bind Argument.point?
    return weightValue w u * p
  return values.sum

/-- The point of an expression, with calls expanded. -/
def Expression.eval (definitions : List Definition) (t : Rat) :
    Expression Rat → Option (Point Rat)
  | .sum start factor offset => some (start + parameterValue factor t * offset)
  | .call name args => do
    let d ← definitions.find? (·.name = name)
    d.apply args t

/-- Does the condition of a branch hold? -/
def Branch.holds (t : Rat) (b : Branch β) : Bool :=
  b.bound.all fun f => t < (f.numerator : Rat) / f.denominator

/-- The point of the first branch whose condition holds. -/
def Equation.eval (definitions : List Definition) (t : Rat) (e : Equation Rat) :
    Option (Point Rat) := do
  let b ← e.branches.find? (·.holds t)
  b.expression.eval definitions t

/-- The point of a formula at a parameter, given the texts of the helper definitions. -/
def pointAt? (definitions : List String) (formula : String) (t : Rat) : Option (Point Rat) := do
  let definitions ← definitions.mapM fun d => readDefinition d.toList
  let equation ← readEquation Scalar.read? formula.toList
  equation.eval definitions t

/-! ## Calls -/

/-- The built-in name of a helper function. -/
def builtInName : Helper → String := Style.default.helperName

/-- What the definition of a helper function says. -/
def definitionOf (h : Helper) : Definition :=
  let letters := ['a', 'b', 'c', 'd'].take h.weights.length
  ⟨(builtInName h).toList, letters ++ ['t'], h.weights.zip letters⟩

theorem readDefinition_definition (h : Helper) :
    readDefinition (h.definition (builtInName h)).toList = some (definitionOf h) := by
  cases h <;> decide +kernel

theorem isName_builtInName (h : Helper) : IsName (builtInName h).toList := by
  cases h <;> exact ⟨by decide, by decide, by decide⟩

/-- What the helper definitions say. -/
def definitions : List Definition := [definitionOf .quadratic, definitionOf .cubic]

theorem find?_definitions (h : Helper) :
    definitions.find? (·.name = (builtInName h).toList) = some (definitionOf h) := by
  cases h <;> decide

theorem weightValue_eq_eval (w : Weight) (u : Rat) : weightValue w u = w.eval u := by
  rw [weightValue, Weight.eval, Scalar.pow_rat, Scalar.pow_rat]
  rfl

/-- A call draws what the helper function does. -/
theorem apply_definitionOf {h : Helper} {points : List (Point Rat)}
    (hpoints : points.length = h.weights.length) (u : LocalParameter) (t : Rat) :
    (definitionOf h).apply (arguments points u) t = some (h.eval points (parameterValue u t)) := by
  -- the letters are bound to the points in order, so only the sums are left to compare
  have hlists : (h = .quadratic ∧ ∃ p q r, points = [p, q, r]) ∨
      (h = .cubic ∧ ∃ p q r v, points = [p, q, r, v]) := by
    cases h
    · exact .inl ⟨rfl, List.length_eq_three.mp hpoints⟩
    · exact .inr ⟨rfl, List.length_eq_four.mp hpoints⟩
  rcases hlists with ⟨rfl, p, q, r, rfl⟩ | ⟨rfl, p, q, r, v, rfl⟩ <;>
    simp [Definition.apply, definitionOf, arguments, Helper.weights, Helper.eval, List.lookup_cons,
      weightValue_eq_eval, Argument.point?, Argument.number?]

section Meaning

variable {α : Type} {number : α → String} {value : α → Rat} {style : Style α}

/-! ## Functions as read -/

theorem map_arguments (points : List (Point α)) (u : LocalParameter) :
    (arguments points u).map (.map value) = arguments (points.map (.map value)) u := by
  rw [arguments, arguments, List.map_append, List.map_map, List.map_map]
  rfl

/-- A branch draws what its clause draws. -/
theorem eval_expression (hnames : style.helperName = builtInName) (clause : Clause α) (t : Rat) :
    (expression value style clause).eval definitions t = some ((clause.map value).eval t) := by
  have hcall : ∀ (h : Helper) (points : List (Point α)), points.length = h.weights.length →
      (Expression.call (style.helperName h).toList
          ((arguments points clause.parameter).map (.map value))).eval definitions t =
        some (h.eval (points.map (.map value)) (parameterValue clause.parameter t)) := by
    intro h points hlength
    rw [hnames, Expression.eval, find?_definitions, map_arguments]
    exact apply_definitionOf (by rw [List.length_map, hlength]) clause.parameter t
  obtain ⟨bound, u, segment⟩ := clause
  cases segment with
  | line p offset => rfl
  | quadratic p q r => exact hcall .quadratic [p, q, r] rfl
  | cubic p q r v => exact hcall .cubic [p, q, r, v] rfl

/-- The first branch whose condition holds is that of the first clause that applies. -/
theorem eval_equation (hnames : style.helperName = builtInName) (g : Piecewise α) (t : Rat) :
    (equation value style g).eval definitions t = (g.map value).eval t := by
  have hholds : (Branch.holds t ∘ branch value style) = (Clause.applies · t) ∘ Clause.map value :=
    rfl
  rw [Equation.eval, equation, Piecewise.eval, Piecewise.map, List.find?_map, List.find?_map,
    hholds]
  cases g.clauses.find? ((Clause.applies · t) ∘ Clause.map value) with
  | none => rfl
  | some clause => exact eval_expression hnames clause t

/-- **Evaluating the text** of a function and those of the helper definitions gives the point of the
function, with the coordinates that the numbers are read as. -/
theorem pointAt?_latex (hnames : style.helperName = builtInName) {g : Piecewise α}
    (hdivisor : Writes Scalar.read? number value g.normalization)
    (hpoints : ∀ clause ∈ g.clauses, ∀ p ∈ clause.segment.points,
      WritesPoint Scalar.read? number value p) (t : Rat) :
    pointAt? style.helperDefinitions (g.latex number style) t = (g.map value).eval t := by
  have hread : style.helperDefinitions.mapM (fun d => readDefinition d.toList) =
      some definitions := by
    rw [Style.helperDefinitions, hnames]
    simp only [List.map_cons, List.map_nil, List.mapM_cons, List.mapM_nil,
      readDefinition_definition]
    rfl
  have hequation := readEquation_latex (fun h => hnames ▸ isName_builtInName h) hdivisor hpoints
  rw [pointAt?, hread, Option.bind_eq_bind, Option.bind_some, hequation, Option.bind_eq_bind,
    Option.bind_some, eval_equation hnames]

/-- An outline with segments has points, whatever its coordinates are read as. -/
theorem exists_eval_map (value : α → Rat) {outline : Outline α} (h : outline.segments ≠ [])
    (t : Rat) : ∃ p, (outline.map value).eval t = some p :=
  Outline.exists_eval (mt List.map_eq_nil_iff.mp h) t

/-- The text of the formula of an outline is evaluated as the outline is. -/
theorem pointAt?_latex_ofOutline (label : String) {outline : Outline α}
    (hnames : style.helperName = builtInName)
    (hdivisor : Writes Scalar.read? number value style.normalization)
    (hpoints : ∀ s ∈ outline.segments, ∀ p ∈ s.points, WritesPoint Scalar.read? number value p)
    {t : Rat} (h₀ : 0 ≤ t) (h₁ : t ≤ 1) :
    pointAt? style.helperDefinitions
      ((Piecewise.ofOutline label outline style).latex number style) t =
        (outline.map value).eval t := by
  have hclauses : ∀ clause ∈ (Piecewise.ofOutline label outline style).clauses,
      ∀ p ∈ clause.segment.points, WritesPoint Scalar.read? number value p := fun _ hclause =>
    hpoints _ (Piecewise.segment_mem_of_mem_clausesFrom hclause)
  rw [pointAt?_latex hnames hdivisor hclauses, ← Piecewise.ofOutline_map,
    Piecewise.eval_ofOutline _ _ _ h₀ h₁]

/-- **The formula of an outline draws the outline.** If every number is written as a plain decimal,
then the text of the formula, evaluated with the texts of the helper definitions, gives at each
parameter of the unit interval the point of the outline whose coordinates the decimals are. -/
theorem pointAt?_ofOutline (label : String) {outline : Outline α}
    (hsegments : outline.segments ≠ [])
    (hquadratic : style.quadraticName = Style.default.quadraticName)
    (hcubic : style.cubicName = Style.default.cubicName)
    (hdivisor : Writes Scalar.read? number value style.normalization)
    (hpoints : ∀ s ∈ outline.segments, ∀ p ∈ s.points, WritesPoint Scalar.read? number value p)
    {t : Rat} (h₀ : 0 ≤ t) (h₁ : t ≤ 1) :
    ∃ p, (outline.map value).eval t = some p ∧
      pointAt? style.helperDefinitions
        ((Piecewise.ofOutline label outline style).latex number style) t = some p := by
  have hnames : style.helperName = builtInName := by
    funext h
    cases h
    · exact hquadratic
    · exact hcubic
  obtain ⟨p, hp⟩ := exists_eval_map value hsegments t
  exact ⟨p, hp, (pointAt?_latex_ofOutline label hnames hdivisor hpoints h₀ h₁).trans hp⟩

end Meaning

/-! One segment of each kind, at the parameter where the second begins. -/

/-- The outline. -/
def threeKinds : Outline Rat :=
  ⟨[.line ⟨0, 0⟩ ⟨3, -6⟩, .quadratic ⟨3, -6⟩ ⟨5, 10⟩ ⟨9, 0⟩,
    .cubic ⟨9, 0⟩ ⟨9, 4⟩ ⟨-20, 4⟩ ⟨0, 0⟩]⟩

/-- The built-in style. -/
def builtInStyle : Style Rat := ⟨1500, Style.default.quadraticName, Style.default.cubicName⟩

theorem pointAt?_ofOutline_threeKinds :
    pointAt? builtInStyle.helperDefinitions
      ((Piecewise.ofOutline "a\x7d" threeKinds builtInStyle).latex (fun x => toString x.num)
        builtInStyle) (1 / 3) = some ⟨3, -6⟩ := by
  obtain ⟨p, houtline, htext⟩ := @pointAt?_ofOutline Rat (fun x => toString x.num) id builtInStyle
    "a\x7d" threeKinds (by decide) rfl rfl (by decide +kernel) (by decide +kernel) (1 / 3)
    (by decide +kernel) (by decide +kernel)
  have hp : (threeKinds.map id).eval (1 / 3) = some ⟨3, -6⟩ := by decide +kernel
  rw [htext, ← houtline, hp]

end PiecewiseGlyph.Reading
