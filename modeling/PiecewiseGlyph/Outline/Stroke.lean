import PiecewiseGlyph.Outline.Basic

/-!
# Strokes

An outline as drawing instructions: a segment says only where it goes, and a move is needed wherever
a segment does not begin where the last one ended.

* `Outline.strokes` writes an outline as strokes;
* `Curve` is a segment by its absolute points, and `Segment.curve` the curve of a segment;
* `curvesOfStrokes` reads strokes back: a move sets the point, any other stroke draws from the last.
-/

namespace PiecewiseGlyph

/-- One drawing instruction. -/
inductive Stroke (α : Type)
  | moveTo (p : Point α)
  | lineTo (p : Point α)
  | quadTo (control p : Point α)
  | curveTo (control₁ control₂ p : Point α)
  deriving DecidableEq, Repr

/-- A line or curve by its points. -/
inductive Curve (α : Type)
  | line (start stop : Point α)
  | quadratic (start control stop : Point α)
  | cubic (start control₁ control₂ stop : Point α)
  deriving DecidableEq, Repr

variable {α : Type} [Scalar α]

/-- A segment by its points. -/
def Segment.curve (s : Segment α) : Curve α :=
  match s with
  | .line p _ => .line p s.stop
  | .quadratic p q r => .quadratic p q r
  | .cubic p q r u => .cubic p q r u

/-- The instruction that draws a segment from its start. -/
def Segment.stroke (s : Segment α) : Stroke α :=
  match s with
  | .line _ _ => .lineTo s.stop
  | .quadratic _ q r => .quadTo q r
  | .cubic _ q r u => .curveTo q r u

/-- Do two points agree? Zeros agree whatever their sign. -/
def Point.agrees (p q : Point α) : Bool := p.x == q.x && p.y == q.y

/-- Strokes for segments, `last` being where the pen is. -/
def strokesFrom (last : Option (Point α)) : List (Segment α) → List (Stroke α)
  | [] => []
  | s :: rest =>
    let draw := s.stroke :: strokesFrom (some s.stop) rest
    if last.any (·.agrees s.start) then draw else .moveTo s.start :: draw

/-- An outline as drawing instructions. -/
def Outline.strokes (outline : Outline α) : List (Stroke α) := strokesFrom none outline.segments

/-- Read strokes from left to right; one that draws without a point is no reading. -/
def curvesOfStrokes (last : Option (Point α)) : List (Stroke α) → Option (List (Curve α))
  | [] => some []
  | .moveTo p :: rest => curvesOfStrokes (some p) rest
  | .lineTo p :: rest => do
    return .line (← last) p :: (← curvesOfStrokes (some p) rest)
  | .quadTo q p :: rest => do
    return .quadratic (← last) q p :: (← curvesOfStrokes (some p) rest)
  | .curveTo q r p :: rest => do
    return .cubic (← last) q r p :: (← curvesOfStrokes (some p) rest)

end PiecewiseGlyph
