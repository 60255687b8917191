import PiecewiseGlyph.Outline.Segment
import PiecewiseGlyph.Path.Token

/-!
# Outlines

Tokens are drawn one after the other with a pen that knows its position, the last command, and the
last control point of each kind of curve. A smooth curve reflects that control point if the last
command drew a curve of the same kind, and takes the position itself otherwise.

An outline is the list of the segments drawn. As a curve with one parameter from 0 to 1 it gives
each of its `n` segments an equal share: segment `k`, counted from 0, is drawn while the parameter
is below `(k + 1) / n`, with the local parameter `n * t - k`; the last segment takes the rest.

* `Pen.step` applies one token: the pen after it, and the segment drawn, nothing, or a fault;
* `Pen.draw` is the common end of all drawing commands. A curve's control point is taken over before
  its segment is checked, so that also a faulty curve leaves it behind;
* `Outline.ofTokens` draws tokens whose closings are resolved;
* `Outline.branch` is the segment drawn at a parameter, and `Outline.eval` the point.
-/

namespace PiecewiseGlyph

/-! ## The pen -/

/-- The state of the pen. -/
structure Pen (α : Type) where
  position : Point α
  /-- The command applied last. -/
  previous : Option Command
  /-- The control point of the last quadratic curve. -/
  quadraticControl : Point α
  /-- The second control point of the last cubic curve. -/
  cubicControl : Point α
  deriving DecidableEq, Repr

namespace Pen

variable {α : Type} [Scalar α]

/-- A pen that has not moved. -/
def initial : Pen α := ⟨Point.origin, none, Point.origin, Point.origin⟩

/-- The control point of a smooth quadratic curve drawn next. -/
def reflectedQuadratic (pen : Pen α) : Point α :=
  if pen.previous.any Command.isQuadratic then pen.quadraticControl.reflect pen.position
  else pen.position

/-- The first control point of a smooth cubic curve drawn next. -/
def reflectedCubic (pen : Pen α) : Point α :=
  if pen.previous.any Command.isCubic then pen.cubicControl.reflect pen.position
  else pen.position

/-- What a step draws: a segment, nothing, or a fault. -/
abbrev Drawn (α : Type) := Except PathError (Option (Segment α))

/-- Draw a segment, if it stays in range, and move to its end. -/
def draw (pen : Pen α) (token : Token α) (segment : Segment α) : Pen α × Drawn α :=
  if segment.isFinite then
    ({ pen with position := segment.stop, previous := some token.command }, .ok (some segment))
  else (pen, .error ⟨token.command.letter, token.offset, .coordinateOverflow⟩)

/-- Draw a quadratic curve to a displacement. -/
def drawQuadratic (pen : Pen α) (token : Token α) (control way : Point α) : Pen α × Drawn α :=
  { pen with quadraticControl := control }.draw token
    (.quadratic pen.position control (pen.position + way))

/-- Draw a cubic curve to a displacement. -/
def drawCubic (pen : Pen α) (token : Token α) (control₁ control₂ way : Point α) :
    Pen α × Drawn α :=
  { pen with cubicControl := control₂ }.draw token
    (.cubic pen.position control₁ control₂ (pen.position + way))

/-- Apply one token. -/
def step (pen : Pen α) (token : Token α) : Pen α × Drawn α :=
  match token.command, token.args with
  | .move, [x, y] => ({ pen with position := ⟨x, y⟩, previous := some .move }, .ok none)
  | .line, [dx, dy] => pen.draw token (.line pen.position ⟨dx, dy⟩)
  | .horizontal, [dx] => pen.draw token (.line pen.position ⟨dx, Scalar.zero⟩)
  | .vertical, [dy] => pen.draw token (.line pen.position ⟨Scalar.zero, dy⟩)
  | .quadratic, [dx₁, dy₁, dx, dy] =>
    pen.drawQuadratic token (pen.position + ⟨dx₁, dy₁⟩) ⟨dx, dy⟩
  | .smoothQuadratic, [dx, dy] => pen.drawQuadratic token pen.reflectedQuadratic ⟨dx, dy⟩
  | .cubic, [dx₁, dy₁, dx₂, dy₂, dx, dy] =>
    pen.drawCubic token (pen.position + ⟨dx₁, dy₁⟩) (pen.position + ⟨dx₂, dy₂⟩) ⟨dx, dy⟩
  | .smoothCubic, [dx₂, dy₂, dx, dy] =>
    pen.drawCubic token pen.reflectedCubic (pen.position + ⟨dx₂, dy₂⟩) ⟨dx, dy⟩
  | .close, [] => (pen, .error ⟨'z', token.offset, .unresolvedClose⟩)
  | command, args =>
    (pen, .error ⟨command.letter, token.offset, .argumentCount command.arity args.length⟩)

/-- Apply tokens until one fails: the segments drawn. -/
def run (pen : Pen α) : List (Token α) → Except PathError (List (Segment α))
  | [] => .ok []
  | token :: rest => do
    let (pen, drawn) := pen.step token
    let segment ← drawn
    let segments ← run pen rest
    return segment.toList ++ segments

end Pen

/-! ## Outlines -/

/-- The segments of a glyph, in the order drawn. -/
structure Outline (α : Type) where
  segments : List (Segment α)
  deriving DecidableEq, Repr

namespace Outline

variable {α : Type} [Scalar α]

/-- Draw tokens with a fresh pen. -/
def ofTokens (tokens : List (Token α)) : Except PathError (Outline α) :=
  (Pen.initial.run tokens).map Outline.mk

/-- The number of segments. -/
def size (outline : Outline α) : Nat := outline.segments.length

/-- Keep a parameter within 0 and 1; what is no number is kept. -/
def clampUnit (t : α) : α :=
  let t := if Scalar.less t (Scalar.ofNat 0) then Scalar.ofNat 0 else t
  if Scalar.less (Scalar.ofNat 1) t then Scalar.ofNat 1 else t

/-- Which of `n` equal shares a parameter falls into, counted from 0; the last has no upper
bound. -/
def branch (n : Nat) (t : α) : Nat :=
  ((List.range (n - 1)).find? fun k =>
    Scalar.less t (Scalar.ofNat (k + 1) / Scalar.ofNat n)).getD (n - 1)

/-- The point at a parameter, clamped to the unit interval; an empty outline has none. -/
def eval (outline : Outline α) (t : α) : Option (Point α) :=
  let t := clampUnit t
  let k := branch outline.size t
  outline.segments[k]?.map (·.eval (Scalar.ofNat outline.size * t - Scalar.ofNat k))

end Outline

end PiecewiseGlyph
