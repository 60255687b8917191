import PiecewiseGlyph.Formula.Piecewise
import PiecewiseGlyph.Json.Value
import PiecewiseGlyph.Path.Token
import PiecewiseGlyph.Program.Notice
import PiecewiseGlyph.Result

/-!
# Converting glyphs

A glyph's path data become the formula of the outline that they draw. Glyphs are converted one by
one: the outcomes keep their order, and a faulty glyph affects its own outcome only.

* `Formula.ofOutline` writes the piecewise function of an outline;
* `Formula.ofPathData` goes all the way from path data, and writes nothing if anything is wrong:
  there is a formula exactly if there is an outline (`Formula.ofPathData_eq_ok_iff`), and the style
  has no part in whether there is one;
* `Formula.notices` warns of a formula that draws nothing;
* `convertAll` converts glyphs;
* `Outcome.report` is the record of an outcome, for a formula or for a fault;
* `renderText` writes the formulas on a line each, `renderJson` all reports.
-/

namespace PiecewiseGlyph

/-! ## Formulas -/

/-- The written formula of one glyph. -/
structure Formula where
  label : String
  segmentCount : Nat
  latex : String
  deriving DecidableEq, Repr

/-- How formulas write numbers: plain decimals, and no sign at zero. -/
def formulaNumber (x : Float) : String := if x == 0 then "0" else Layout.plain.write x

namespace Formula

/-- The formula of an outline. -/
def ofOutline (label : String) (outline : Outline Float) (style : Style Float) : Formula :=
  { label
    segmentCount := outline.size
    latex := (Piecewise.ofOutline label outline style).latex formulaNumber style }

/-- The formula of path data. -/
def ofPathData (label data : String) (style : Style Float) : Except PathError Formula := do
  let tokens ← parsePath data
  let outline ← Outline.ofTokens tokens
  return ofOutline label outline style

/-- A formula is made of an outline. -/
theorem ofPathData_eq_ok_iff {label data : String} {style : Style Float} {f : Formula} :
    ofPathData label data style = .ok f ↔
      ∃ outline, (parsePath data).bind Outline.ofTokens = .ok outline ∧
        ofOutline label outline style = f := by
  rw [ofPathData]
  constructor
  · intro h
    obtain ⟨tokens, htokens, h⟩ := bind_eq_ok.mp h
    obtain ⟨outline, houtline, h⟩ := bind_eq_ok.mp h
    exact ⟨outline, bind_eq_ok.mpr ⟨tokens, htokens, houtline⟩, Except.ok.inj h⟩
  · rintro ⟨outline, h, rfl⟩
    obtain ⟨tokens, htokens, houtline⟩ := bind_eq_ok.mp h
    exact bind_eq_ok.mpr ⟨tokens, htokens, bind_eq_ok.mpr ⟨outline, houtline, rfl⟩⟩

/-- What there is to say about a formula. -/
def notices (f : Formula) : List Notice :=
  if f.segmentCount = 0 then [⟨.warn, s!"Glyph '{f.label}' has no drawable segments"⟩] else []

end Formula

/-! ## Outcomes -/

/-- A glyph of a font: what it stands for, its outline as path data, and its name if it has one. -/
structure Glyph where
  label : String
  pathData : String
  name : Option String
  deriving DecidableEq, Repr

/-- What became of a glyph. -/
structure Outcome where
  label : String
  result : Except PathError Formula

namespace Outcome

/-- The formula, if there is one. -/
def formula? (o : Outcome) : Option Formula := o.result.toOption

/-- The outcome as a record, its members in alphabetical order. -/
def report (o : Outcome) : Json.Value :=
  .object <|
    match o.result with
    | .ok f =>
      [("formula", .string f.latex), ("label", .string o.label),
        ("segments", .natural f.segmentCount)]
    | .error e =>
      [("error", .string e.message), ("label", .string o.label)] ++
        if e.isUnsupported then [("unsupported", .bool true)] else []

/-- What there is to say about a formula that was made. -/
def warnings (o : Outcome) : List Notice := (o.formula?.map Formula.notices).getD []

/-- What there is to say about a fault. -/
def failure? (o : Outcome) : Option Notice :=
  match o.result with
  | .ok _ => none
  | .error e =>
    let what :=
      if e.isUnsupported then "uses a feature that is not supported" else "has corrupt path data"
    some ⟨.error, s!"Glyph '{o.label}' {what}: {e.message}"⟩

end Outcome

/-- Convert a glyph. -/
def convert (style : Style Float) (g : Glyph) : Outcome :=
  ⟨g.label, Formula.ofPathData g.label g.pathData style⟩

/-- Convert glyphs, in order. -/
def convertAll (glyphs : List Glyph) (style : Style Float) : List Outcome :=
  glyphs.map (convert style)

/-! ## Writing outcomes -/

/-- The ways of writing outcomes. -/
inductive OutputFormat
  /-- One formula per line. -/
  | text
  /-- One record per glyph, faulty ones included. -/
  | json
  deriving DecidableEq, Repr

/-- The formulas that were made, one per line. -/
def joinFormulas (outcomes : List Outcome) : String :=
  "\n".intercalate ((outcomes.filterMap Outcome.formula?).map Formula.latex)

/-- The formulas, after the definitions of the helper functions if asked for. -/
def renderText (style : Style Float) (helpers : Bool) (outcomes : List Outcome) : String :=
  let formulas := joinFormulas outcomes
  "\n".intercalate ((if helpers then style.helperDefinitions else []) ++
    if formulas.isEmpty then [] else [formulas])

/-- The reports, beside the definitions of the helper functions if asked for. -/
def renderJson (style : Style Float) (helpers : Bool) (outcomes : List Outcome) : String :=
  let glyphs := Json.Value.array (outcomes.map Outcome.report)
  let document :=
    if helpers then
      .object [("glyphs", glyphs), ("helpers", .array (style.helperDefinitions.map .string))]
    else glyphs
  document.pretty

/-- Write outcomes in a format. -/
def render (style : Style Float) (helpers : Bool) (outcomes : List Outcome) :
    OutputFormat → String
  | .text => renderText style helpers outcomes
  | .json => renderJson style helpers outcomes

end PiecewiseGlyph
