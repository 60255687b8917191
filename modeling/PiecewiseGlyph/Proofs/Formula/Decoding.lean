import PiecewiseGlyph.Proofs.Formula.Meaning
import PiecewiseGlyph.Proofs.Formula.Numbers
import PiecewiseGlyph.Proofs.Range

/-!
# Decoding formulas

What a formula was written from can be told from its text, with the helper functions under their
built-in names.

* `Branch.clause?` and `Equation.piecewise?` take what was read for clauses and for a function, and
  `Piecewise.outline` the function for an outline;
* `decode?` goes all the way from a text, and `decode?_ofOutline` says that it finds the label, the
  divisor and the segments that the formula was written from;
* `Formula.latex_eq_iff`: so two formulas over binary64 numbers are the same text exactly if they
  are the same function, up to the signs of zeros;
* `Formula.pointAt?_latex` and `Formula.pointAt?_ofPathData`: the formula of an outline draws the
  outline, and that of path data what they draw, with the shortest decimals for coordinates.
-/

namespace PiecewiseGlyph

/-! ## From functions to outlines -/

namespace Piecewise

variable {α : Type}

/-- The outline that a function draws. -/
def outline (f : Piecewise α) : Outline α := ⟨f.clauses.map Clause.segment⟩

theorem map_segment_clausesFrom (n k : Nat) (segments : List (Segment α)) :
    (clausesFrom n k segments).map Clause.segment = segments := by
  induction segments generalizing k with
  | nil => rfl
  | cons s rest ih => rw [clausesFrom, List.map_cons, ih, Clause.ofSegment]

/-- A function shows the outline it was made of. -/
theorem outline_ofOutline (label : String) (outline : Outline α) (style : Style α) :
    (ofOutline label outline style).outline = outline := by
  rw [Piecewise.outline, ofOutline, map_segment_clausesFrom]

end Piecewise

namespace Reading

variable {α β : Type}

/-! ## From what is read to functions -/

/-- The clause of a branch. The name of a call has to fit the number of points. -/
def Branch.clause? (b : Branch β) : Option (Clause β) :=
  match b.expression with
  | .sum start factor offset => some ⟨b.bound, factor, .line start offset⟩
  | .call name [.point p, .point q, .point r, .parameter u] =>
    if name = (builtInName .quadratic).toList then some ⟨b.bound, u, .quadratic p q r⟩ else none
  | .call name [.point p, .point q, .point r, .point v, .parameter u] =>
    if name = (builtInName .cubic).toList then some ⟨b.bound, u, .cubic p q r v⟩ else none
  | .call _ _ => none

/-- The function of an equation. -/
def Equation.piecewise? (e : Equation β) : Option (Piecewise β) :=
  (e.branches.mapM Branch.clause?).map (⟨String.ofList e.label, e.divisor, ·⟩)

/-- The label, the divisor and the outline of a formula. -/
def decode? (literal : List Char → Option β) (formula : String) :
    Option (String × β × Outline β) := do
  let equation ← readEquation literal formula.toList
  let f ← equation.piecewise?
  return (f.label, f.normalization, f.outline)

section

variable {literal : List Char → Option β} {number : α → String} {value : α → β} {style : Style α}

theorem clause?_branch (hnames : style.helperName = builtInName) (clause : Clause α) :
    (branch value style clause).clause? = some (clause.map value) := by
  obtain ⟨bound, u, segment⟩ := clause
  cases segment with
  | line p offset => rfl
  | quadratic p q r => exact if_pos (congrArg String.toList (congrFun hnames .quadratic))
  | cubic p q r v => exact if_pos (congrArg String.toList (congrFun hnames .cubic))

theorem piecewise?_equation (hnames : style.helperName = builtInName) (f : Piecewise α) :
    (equation value style f).piecewise? = some (f.map value) := by
  have hclauses : (f.clauses.map (branch value style)).mapM Branch.clause? =
      some (f.clauses.map (.map value)) := by
    have hclause : Branch.clause? ∘ branch value style = fun clause => pure (clause.map value) :=
      funext (clause?_branch hnames)
    rw [List.mapM_map, hclause, List.mapM_pure]
    rfl
  rw [Equation.piecewise?, equation, hclauses, String.ofList_toList]
  rfl

/-- The text of the function of an outline is read as that function. -/
theorem piecewise?_latex (label : String) {outline : Outline α}
    (hnames : style.helperName = builtInName)
    (hdivisor : Writes literal number value style.normalization)
    (hpoints : ∀ s ∈ outline.segments, ∀ p ∈ s.points, WritesPoint literal number value p) :
    (readEquation literal
        ((Piecewise.ofOutline label outline style).latex number style).toList).bind
        Equation.piecewise? =
      some ((Piecewise.ofOutline label outline style).map value) := by
  have hread := readEquation_latex (f := Piecewise.ofOutline label outline style)
    (fun h => hnames ▸ isName_builtInName h) hdivisor fun clause hclause =>
      hpoints _ (Piecewise.segment_mem_of_mem_clausesFrom hclause)
  rw [hread, Option.bind_some, piecewise?_equation hnames]

/-- **A formula can be decoded**: its text tells the label, the divisor and the outline, as far as
numbers are told by what they are read as. -/
theorem decode?_ofOutline (label : String) {outline : Outline α}
    (hnames : style.helperName = builtInName)
    (hdivisor : Writes literal number value style.normalization)
    (hpoints : ∀ s ∈ outline.segments, ∀ p ∈ s.points, WritesPoint literal number value p) :
    decode? literal ((Piecewise.ofOutline label outline style).latex number style) =
      some (label, value style.normalization, outline.map value) := by
  obtain ⟨equation, hread, hfunction⟩ :=
    Option.bind_eq_some_iff.mp (piecewise?_latex label hnames hdivisor hpoints)
  rw [decode?, hread, Option.bind_eq_bind, Option.bind_some, hfunction, Option.bind_eq_bind,
    Option.bind_some, ← Piecewise.ofOutline_map, Piecewise.outline_ofOutline]
  rfl

end

end Reading

/-! ## Formulas over binary64 numbers -/

/-- The name of a glyph's function. -/
def functionName (label : String) : String := "g_\x7blyph" ++ Label.escape label ++ "\x7d"

/-- What is between the braces of a formula. -/
def Outline.body (outline : Outline Float) (style : Style Float) : String :=
  ",\\ ".intercalate
    ((Piecewise.clausesFrom outline.size 0 outline.segments).map (Clause.latex formulaNumber style))

namespace Formula

/-- A formula has a name, a divisor and a body. -/
theorem latex_ofOutline (label : String) (outline : Outline Float) (style : Style Float) :
    (ofOutline label outline style).latex =
      functionName label ++
        "\\left(P,\\ t,\\ s_\x7bcale\x7d\\right)=P+\\frac\x7bs_\x7bcale\x7d\x7d\x7b" ++
        formulaNumber style.normalization ++ "\x7d\\left\\\x7b" ++ outline.body style ++
        "\\right\\\x7d" := by
  have hbrace : "\x7d\\left(P,\\ t,\\ s_\x7bcale\x7d\\right)=P+\\frac\x7bs_\x7bcale\x7d\x7d\x7b" =
      "\x7d" ++ "\\left(P,\\ t,\\ s_\x7bcale\x7d\\right)=P+\\frac\x7bs_\x7bcale\x7d\x7d\x7b" := by
    decide
  simp only [ofOutline, Piecewise.latex, functionName, Outline.body, Piecewise.ofOutline, hbrace,
    String.append_assoc]

/-- What a formula is decodable from: the helper functions have their built-in names, the divisor is
a positive number, and all coordinates are finite. -/
structure Decodable (outline : Outline Float) (style : Style Float) : Prop where
  quadraticName : style.quadraticName = Style.default.quadraticName
  cubicName : style.cubicName = Style.default.cubicName
  divisor : isDivisor style.normalization = true
  finite : ∀ s ∈ outline.segments, ∀ p ∈ s.points, p.isFinite = true

variable {label label' : String} {outline outline' : Outline Float} {style style' : Style Float}

theorem Decodable.helperName (h : Decodable outline style) :
    style.helperName = Reading.builtInName := by
  funext helper
  cases helper
  · exact h.quadraticName
  · exact h.cubicName

theorem Decodable.writes_divisor (h : Decodable outline style) :
    Reading.Writes Scalar.read? formulaNumber formulaValue style.normalization := by
  have hdivisor := h.divisor
  rw [isDivisor, Bool.and_eq_true] at hdivisor
  exact Reading.writes_formulaNumber hdivisor.1

theorem Decodable.writes_points (h : Decodable outline style) :
    ∀ s ∈ outline.segments, ∀ p ∈ s.points,
      Reading.WritesPoint Scalar.read? formulaNumber formulaValue p := by
  intro s hs p hp
  obtain ⟨hx, hy⟩ := Bool.and_eq_true_iff.mp (h.finite s hs p hp)
  exact ⟨Reading.writes_formulaNumber hx, Reading.writes_formulaNumber hy⟩

/-- A formula tells the shortest decimals of its numbers. -/
theorem decode?_latex (label : String) (h : Decodable outline style) :
    Reading.decode? Scalar.read? (ofOutline label outline style).latex =
      some (label, formulaValue style.normalization, outline.map formulaValue) :=
  Reading.decode?_ofOutline label h.helperName h.writes_divisor h.writes_points

/-- The signs of zeros are not written. -/
theorem latex_unsigned (label : String) (outline : Outline Float) (style : Style Float) :
    (ofOutline label (outline.map unsigned) (style.map unsigned)).latex =
      (ofOutline label outline style).latex := by
  rw [ofOutline, ofOutline, Piecewise.ofOutline_map, Piecewise.latex_map, formulaNumber_unsigned]

theorem map_unsigned_eq (h : outline.map formulaValue = outline'.map formulaValue) :
    outline.map unsigned = outline'.map unsigned := by
  have hfactors : Function.FactorsThrough unsigned formulaValue := fun _ _ =>
    unsigned_eq_of_formulaValue
  obtain ⟨e, he⟩ := (Function.factorsThrough_iff unsigned).mp hfactors
  rw [he, ← Outline.map_map, h, Outline.map_map]

/-- The text of a formula tells what it was written from. -/
theorem eq_of_latex (h : Decodable outline style) (h' : Decodable outline' style')
    (hlatex : (ofOutline label outline style).latex = (ofOutline label' outline' style').latex) :
    label = label' ∧ style.normalization = style'.normalization ∧
      outline.map unsigned = outline'.map unsigned := by
  have hdecode := decode?_latex label h
  rw [hlatex, decode?_latex label' h', Option.some_inj, Prod.mk.injEq, Prod.mk.injEq] at hdecode
  obtain ⟨rfl, hdivisor, houtline⟩ := hdecode
  refine ⟨rfl, ?_, (map_unsigned_eq houtline).symm⟩
  have hunsigned := unsigned_eq_of_formulaValue hdivisor
  rw [unsigned_of_isDivisor h'.divisor, unsigned_of_isDivisor h.divisor] at hunsigned
  exact hunsigned.symm

/-- **A formula can be decoded.** Two formulas have the same text exactly if they agree in the
label, in the divisor and, up to the sign of zero, in the kinds and the points of all segments.
Already the names of the functions tell the labels apart, and the bodies the outlines. -/
theorem latex_eq_iff (h : Decodable outline style) (h' : Decodable outline' style') :
    ((ofOutline label outline style).latex = (ofOutline label' outline' style').latex ↔
      label = label' ∧ style.normalization = style'.normalization ∧
        outline.map unsigned = outline'.map unsigned) ∧
    (functionName label = functionName label' → label = label') ∧
    (outline.body style = outline'.body style' → outline.map unsigned = outline'.map unsigned) := by
  refine ⟨⟨eq_of_latex h h', ?_⟩, fun hname => ?_, fun hbody => ?_⟩
  · rintro ⟨rfl, hdivisor, houtline⟩
    have hstyle : style = style' := by
      obtain ⟨n, quadratic, cubic⟩ := style
      obtain ⟨n', quadratic', cubic'⟩ := style'
      rw [Style.mk.injEq]
      exact ⟨hdivisor, h.quadraticName.trans h'.quadraticName.symm,
        h.cubicName.trans h'.cubicName.symm⟩
    rw [← latex_unsigned label outline, houtline, hstyle, latex_unsigned]
  · refine (eq_of_latex h h ?_).1
    rw [latex_ofOutline, latex_ofOutline, hname]
  · -- the body does not show the divisor, so both outlines may have the same one
    have h'' : Decodable outline' { style' with normalization := style.normalization } :=
      ⟨h'.quadraticName, h'.cubicName, h.divisor, h'.finite⟩
    have hsame : outline'.body { style' with normalization := style.normalization } =
        outline'.body style' := rfl
    have hlatex : (ofOutline "" outline style).latex =
        (ofOutline "" outline' { style' with normalization := style.normalization }).latex := by
      rw [latex_ofOutline, latex_ofOutline, hsame, hbody]
    exact (eq_of_latex h h'' hlatex).2.2

/-! An outline that begins at either of the zeros, and a label whose hat is a command. -/

/-- A line and a curve from a zero. -/
def fromZero (zero : Float) : Outline Float :=
  ⟨[.line ⟨zero, 0.1⟩ ⟨3, -2.5⟩, .quadratic ⟨3, -2.4⟩ ⟨1e21, zero⟩ ⟨5e-324, 0.3⟩]⟩

theorem latex_eq_iff_twoZeros :
    fromZero 0 ≠ fromZero (-0) ∧
      (ofOutline "^" (fromZero 0) Style.default).latex =
        (ofOutline "^" (fromZero (-0)) Style.default).latex ∧
      functionName "^" ≠ functionName "\\hat\x7b\x7d" := by
  have hpositive : Decodable (fromZero 0) Style.default :=
    ⟨rfl, rfl, by decide +kernel, by decide +kernel⟩
  have hnegative : Decodable (fromZero (-0)) Style.default :=
    ⟨rfl, rfl, by decide +kernel, by decide +kernel⟩
  refine ⟨by decide +kernel, ?_, fun hname => ?_⟩
  · exact (latex_eq_iff hpositive hnegative).1.mpr ⟨rfl, rfl, by decide +kernel⟩
  · exact absurd ((latex_eq_iff hpositive hnegative).2.1 hname) (by decide)

/-! ## Points of formulas -/

/-- **A formula draws its outline.** Its text, evaluated with the texts of the helper definitions,
gives at each parameter of the unit interval the point of the outline whose coordinates are the
shortest decimals. -/
theorem pointAt?_latex (label : String) (h : Decodable outline style)
    (hsegments : outline.segments ≠ []) {t : Rat} (h₀ : 0 ≤ t) (h₁ : t ≤ 1) :
    ∃ p, (outline.map formulaValue).eval t = some p ∧
      Reading.pointAt? style.helperDefinitions (ofOutline label outline style).latex t =
        some p := by
  obtain ⟨p, hp⟩ := Reading.exists_eval_map formulaValue hsegments t
  have htext := Reading.pointAt?_latex_ofOutline label h.helperName h.writes_divisor
    h.writes_points h₀ h₁
  exact ⟨p, hp, htext.trans hp⟩

/-! At one half the line is drawn and the curve begins, at the decimals of its first point. -/

theorem pointAt?_latex_fromZero :
    Decodable (fromZero (-0)) Style.default ∧
      Reading.pointAt? Style.default.helperDefinitions
        (ofOutline "~" (fromZero (-0)) Style.default).latex (1 / 2) = some ⟨3, -12 / 5⟩ := by
  have hdecodable : Decodable (fromZero (-0)) Style.default :=
    ⟨rfl, rfl, by decide +kernel, by decide +kernel⟩
  obtain ⟨p, houtline, htext⟩ := pointAt?_latex "~" hdecodable (by decide) (t := 1 / 2)
    (by decide +kernel) (by decide +kernel)
  have hp : ((fromZero (-0)).map formulaValue).eval (1 / 2) = some ⟨3, -12 / 5⟩ := by
    decide +kernel
  exact ⟨hdecodable, by rw [htext, ← houtline, hp]⟩

/-- What is drawn from path data has a decodable formula. -/
theorem Decodable.of_ofTokens {tokens : List (Token Float)}
    (quadraticName : style.quadraticName = Style.default.quadraticName)
    (cubicName : style.cubicName = Style.default.cubicName)
    (divisor : isDivisor style.normalization = true)
    (h : Outline.ofTokens tokens = .ok outline) : Decodable outline style where
  quadraticName := quadraticName
  cubicName := cubicName
  divisor := divisor
  finite s hs := Segment.isFinite_points ((Outline.ofTokens_eq_ok_iff_sketch.mp h).2 s hs)

/-- **The formula of path data draws what the path data draw**, unless that is nothing. -/
theorem pointAt?_ofPathData {label data : String} {f : Formula}
    (quadraticName : style.quadraticName = Style.default.quadraticName)
    (cubicName : style.cubicName = Style.default.cubicName)
    (divisor : isDivisor style.normalization = true)
    (hf : ofPathData label data style = .ok f) (hcount : f.segmentCount ≠ 0) :
    ∃ outline, (parsePath data).bind Outline.ofTokens = .ok outline ∧
      ∀ t : Rat, 0 ≤ t → t ≤ 1 → ∃ p, (outline.map formulaValue).eval t = some p ∧
        Reading.pointAt? style.helperDefinitions f.latex t = some p := by
  obtain ⟨outline, houtline, rfl⟩ := ofPathData_eq_ok_iff.mp hf
  obtain ⟨tokens, -, htokens⟩ := bind_eq_ok.mp houtline
  have hdecodable := Decodable.of_ofTokens quadraticName cubicName divisor htokens
  have hsegments : outline.segments ≠ [] := mt List.length_eq_zero_iff.mpr hcount
  exact ⟨outline, houtline, fun t h₀ h₁ => pointAt?_latex label hdecodable hsegments h₀ h₁⟩

/-! A line and the way back: at one fourth, half of the line is drawn. -/

/-- The outline of `M0 .1l3 -2.5z`. -/
def lineAndBack : Outline Float := ⟨[.line ⟨0, 0.1⟩ ⟨3, -2.5⟩, .line ⟨3, -2.4⟩ ⟨-3, 2.5⟩]⟩

theorem pointAt?_ofPathData_lineAndBack :
    ∃ f, ofPathData "a" "M0 .1l3 -2.5z" Style.default = .ok f ∧
      Reading.pointAt? Style.default.helperDefinitions f.latex (1 / 4) =
        some ⟨3 / 2, -23 / 20⟩ := by
  have hdrawn : (parsePath "M0 .1l3 -2.5z").bind Outline.ofTokens = .ok lineAndBack := by
    decide +kernel
  have hf : ofPathData "a" "M0 .1l3 -2.5z" Style.default =
      .ok (ofOutline "a" lineAndBack Style.default) :=
    ofPathData_eq_ok_iff.mpr ⟨lineAndBack, hdrawn, rfl⟩
  obtain ⟨outline, houtline, hpoints⟩ :=
    pointAt?_ofPathData rfl rfl (by decide +kernel) hf (by decide)
  obtain rfl := Except.ok.inj (houtline.symm.trans hdrawn)
  obtain ⟨p, hp, htext⟩ := hpoints (1 / 4) (by decide +kernel) (by decide +kernel)
  have hvalue : (lineAndBack.map formulaValue).eval (1 / 4) = some ⟨3 / 2, -23 / 20⟩ := by
    decide +kernel
  exact ⟨_, hf, by rw [htext, ← hp, hvalue]⟩

end Formula

end PiecewiseGlyph
