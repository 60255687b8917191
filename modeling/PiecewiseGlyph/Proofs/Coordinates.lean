import PiecewiseGlyph.Formula.Piecewise

/-!
# Changing coordinates

A function on coordinates acts on everything that is given by points.

* `Outline.map_map`: acting with two functions is acting with their composition;
* `Piecewise.ofOutline_map`: a function acts on an outline and on the clauses made of the outline
  alike;
* `Piecewise.latex_map`: how the new coordinates are written decides how the old ones are.
-/

namespace PiecewiseGlyph

variable {α β : Type} (f : α → β)

/-! ## Outlines -/

/-- The point with other coordinates. -/
def Point.map (p : Point α) : Point β := ⟨f p.x, f p.y⟩

namespace Segment

/-- The segment with other coordinates. -/
def map : Segment α → Segment β
  | line p offset => line (p.map f) (offset.map f)
  | quadratic p q r => quadratic (p.map f) (q.map f) (r.map f)
  | cubic p q r u => cubic (p.map f) (q.map f) (r.map f) (u.map f)

/-- All points and displacements that the segment is given by. -/
def points : Segment α → List (Point α)
  | line p offset => [p, offset]
  | quadratic p q r => [p, q, r]
  | cubic p q r u => [p, q, r, u]

/-- The points of a segment in range are finite. -/
theorem isFinite_points [Scalar α] {s : Segment α} (h : s.isFinite = true) :
    ∀ p ∈ s.points, p.isFinite = true := by
  cases s with
  | line p offset =>
    simp only [isFinite, Bool.and_eq_true] at h
    simpa [points] using h.1
  | quadratic p q r => simpa [isFinite, points, and_assoc] using h
  | cubic p q r u => simpa [isFinite, points, and_assoc] using h

end Segment

/-- The outline with other coordinates. -/
def Outline.map (outline : Outline α) : Outline β := ⟨outline.segments.map (·.map f)⟩

section

variable {γ : Type} (g : β → γ)

theorem Segment.map_map (s : Segment α) : (s.map f).map g = s.map (g ∘ f) := by
  cases s <;> rfl

/-- Coordinates may be changed in two steps. -/
theorem Outline.map_map (outline : Outline α) : (outline.map f).map g = outline.map (g ∘ f) := by
  simp only [Outline.map, List.map_map, Function.comp_def, Segment.map_map]

end

/-! ## Functions -/

/-- The clause with other coordinates. -/
def Clause.map (clause : Clause α) : Clause β :=
  ⟨clause.bound, clause.parameter, clause.segment.map f⟩

/-- The style with another divisor. -/
def Style.map (style : Style α) : Style β :=
  ⟨f style.normalization, style.quadraticName, style.cubicName⟩

namespace Piecewise

/-- The function with other coordinates. -/
def map (g : Piecewise α) : Piecewise β :=
  ⟨g.label, f g.normalization, g.clauses.map (·.map f)⟩

theorem clausesFrom_map (n k : Nat) (segments : List (Segment α)) :
    clausesFrom n k (segments.map (·.map f)) = (clausesFrom n k segments).map (·.map f) := by
  induction segments generalizing k with
  | nil => rfl
  | cons s rest ih =>
    rw [List.map_cons, clausesFrom, clausesFrom, List.map_cons, ih]
    rfl

/-- It does not matter whether coordinates are changed before or after clauses are made. -/
theorem ofOutline_map (label : String) (outline : Outline α) (style : Style α) :
    ofOutline label (outline.map f) (style.map f) = (ofOutline label outline style).map f := by
  rw [ofOutline, ofOutline, map, ← clausesFrom_map]
  simp only [Outline.map, Outline.size, List.length_map, Style.map]

end Piecewise

/-! ## Texts -/

section

variable (number : β → String) (style : Style α)

theorem Helper.call_map (h : Helper) (points : List (Point α)) (u : LocalParameter) :
    h.call number (style.map f) (points.map (·.map f)) u =
      h.call (number ∘ f) style points u := by
  have hname : (style.map f).helperName h = style.helperName h := by
    cases h <;> rfl
  rw [Helper.call, Helper.call, hname, List.map_map]
  rfl

theorem Clause.latex_map (clause : Clause α) :
    (clause.map f).latex number (style.map f) = clause.latex (number ∘ f) style := by
  obtain ⟨bound, u, segment⟩ := clause
  have hcondition : (Clause.mk bound u (segment.map f)).condition =
      (Clause.mk bound u segment).condition := rfl
  rw [Clause.map, Clause.latex, Clause.latex, hcondition]
  congr 1
  cases segment with
  | line p offset => rfl
  | quadratic p q r => exact Helper.call_map f number style .quadratic [p, q, r] u
  | cubic p q r v => exact Helper.call_map f number style .cubic [p, q, r, v] u

/-- A function is written alike, whether its coordinates are changed before they are written or as
they are. -/
theorem Piecewise.latex_map (g : Piecewise α) :
    (g.map f).latex number (style.map f) = g.latex (number ∘ f) style := by
  have hclauses : Clause.latex number (style.map f) ∘ (·.map f) = Clause.latex (number ∘ f) style :=
    funext (Clause.latex_map f number style)
  rw [Piecewise.latex, Piecewise.latex, Piecewise.map, List.map_map, hclauses]
  rfl

end

end PiecewiseGlyph
