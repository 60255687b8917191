import PiecewiseGlyph.Scalar

/-!
# Points and segments

A point is a pair of coordinates, used for positions and for displacements alike; all operations
work on each coordinate alone. A segment of an outline is a line or a Bézier curve of degree two or
three. A line keeps the displacement it was drawn with, so that a formula shows the numbers of the
path data.

* `Segment.start` and `Segment.stop` are the ends of a segment;
* `Segment.eval` is the point at a parameter from 0 to 1, in the Bernstein form.
-/

namespace PiecewiseGlyph

/-! ## Points -/

/-- A position, or a displacement. -/
structure Point (α : Type) where
  x : α
  y : α
  deriving DecidableEq, BEq, Repr

namespace Point

variable {α : Type} [Scalar α]

/-- The point `(0, 0)`. -/
def origin : Point α := ⟨Scalar.zero, Scalar.zero⟩

/-- Are both coordinates finite? -/
def isFinite (p : Point α) : Bool := Scalar.isFinite p.x && Scalar.isFinite p.y

instance : Add (Point α) := ⟨fun p q => ⟨p.x + q.x, p.y + q.y⟩⟩

/-- Scale from the right. -/
instance : HMul (Point α) α (Point α) := ⟨fun p a => ⟨p.x * a, p.y * a⟩⟩

/-- Scale from the left. -/
instance : HMul α (Point α) (Point α) := ⟨fun a p => ⟨a * p.x, a * p.y⟩⟩

/-- The displacement to the origin. -/
def opposite (p : Point α) : Point α := ⟨Scalar.zero - p.x, Scalar.zero - p.y⟩

/-- Is this the origin? -/
def isOrigin (p : Point α) : Bool := p.x == Scalar.zero && p.y == Scalar.zero

/-- The image of a point under reflection in another: `2 * center - p`. -/
def reflect (p center : Point α) : Point α :=
  ⟨Scalar.ofNat 2 * center.x - p.x, Scalar.ofNat 2 * center.y - p.y⟩

@[simp] theorem add_x (p q : Point α) : (p + q).x = p.x + q.x := rfl
@[simp] theorem add_y (p q : Point α) : (p + q).y = p.y + q.y := rfl

end Point

/-! ## Segments -/

/-- A line or curve. -/
inductive Segment (α : Type)
  | line (start offset : Point α)
  | quadratic (start control stop : Point α)
  | cubic (start control₁ control₂ stop : Point α)
  deriving DecidableEq, Repr

namespace Segment

variable {α : Type} [Scalar α]

/-- Where the segment begins. -/
def start : Segment α → Point α
  | line p _ => p
  | quadratic p _ _ => p
  | cubic p _ _ _ => p

/-- Where the segment ends. -/
def stop : Segment α → Point α
  | line p offset => p + offset
  | quadratic _ _ q => q
  | cubic _ _ _ q => q

/-- The quadratic Bézier curve. -/
def evalQuadratic (p q r : Point α) (t : α) : Point α :=
  let s := Scalar.ofNat 1 - t
  p * (s * s) + (q * (s * Scalar.ofNat 2) + r * t) * t

/-- The cubic Bézier curve. -/
def evalCubic (p q r u : Point α) (t : α) : Point α :=
  let s := Scalar.ofNat 1 - t
  p * (s * s * s) + (q * (s * s * Scalar.ofNat 3) + (r * (s * Scalar.ofNat 3) + u * t) * t) * t

/-- The point at a parameter. -/
def eval : Segment α → α → Point α
  | line p offset, t => p + t * offset
  | quadratic p q r, t => evalQuadratic p q r t
  | cubic p q r u, t => evalCubic p q r u t

/-- Are all points and displacements finite, the end of a line included? -/
def isFinite : Segment α → Bool
  | line p offset => p.isFinite && offset.isFinite && (p + offset).isFinite
  | quadratic p q r => p.isFinite && q.isFinite && r.isFinite
  | cubic p q r u => p.isFinite && q.isFinite && r.isFinite && u.isFinite

end Segment

end PiecewiseGlyph
