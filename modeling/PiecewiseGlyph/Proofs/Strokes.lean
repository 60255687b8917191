import Mathlib
import PiecewiseGlyph.Outline.Stroke
import PiecewiseGlyph.Proofs.Range
import PiecewiseGlyph.Proofs.Resolving

/-!
# Outlines and their strokes

Strokes leave out where a segment begins, and say it with a move wherever it is not where the last
segment ended. Nothing is lost by that but the signs of zeros.

* `Scalar.ComparesValues` are numbers that are compared but for the signs of zeros; binary64 numbers
  and rational numbers are such;
* `strokesFrom_eq_flatten`: each segment has its own strokes, which depend only on where the segment
  before it ends;
* `exists_curvesOfStrokes`: reading strokes gives the curves they were made of;
* `Outline.IsDrawnBy` is what the strokes of an outline are like, and `Outline.isDrawnBy_strokes`
  that they are, for everything that is drawn with tokens.
-/

namespace PiecewiseGlyph

/-! ## Points that agree -/

/-- Numbers that are compared by value: what is equal differs at most in the sign of a zero, and
nothing else differs, in range. -/
class Scalar.ComparesValues (α : Type) [Scalar α] : Prop where
  alike_of_beq : ∀ {a b : α}, (a == b) = true → Alike a b
  beq_of_alike : ∀ {a b : α}, isFinite a = true → Alike a b → (a == b) = true

instance : Scalar.ComparesValues Rat where
  alike_of_beq h := .inl (eq_of_beq h)
  beq_of_alike := by
    rintro a b - (rfl | ⟨ha, hb⟩)
    · exact beq_self_eq_true a
    · rw [eq_of_beq ha, eq_of_beq hb]
      rfl

instance : Scalar.ComparesValues Float where
  alike_of_beq {a b} h := by
    obtain ⟨-, -, rfl | ⟨rfl, rfl⟩ | ⟨rfl, rfl⟩⟩ := Float.beq_iff_ne_nan_and_eq.mp h
    · exact .inl rfl
    · exact .inr ⟨by decide +kernel, by decide +kernel⟩
    · exact .inr ⟨by decide +kernel, by decide +kernel⟩
  beq_of_alike := by
    rintro a b hfinite (rfl | ⟨ha, hb⟩)
    · refine Float.beq_self_iff.mpr ?_
      rintro rfl
      exact absurd hfinite (by decide +kernel)
    · obtain ⟨sign, ha⟩ := exists_unpack_eq_zero ha
      obtain ⟨sign', hb⟩ := exists_unpack_eq_zero hb
      change (a.toModel.unpack.compare b.toModel.unpack == some .eq) = true
      rw [ha, hb]
      rfl

section

variable {α : Type} [Scalar α]

section

variable [Scalar.ComparesValues α] {p q : Point α}

/-- Points that agree differ at most in the signs of zeros. -/
theorem Point.alike_of_agrees (h : p.agrees q = true) : p.Alike q := by
  obtain ⟨hx, hy⟩ := Bool.and_eq_true_iff.mp h
  exact ⟨Scalar.ComparesValues.alike_of_beq hx, Scalar.ComparesValues.alike_of_beq hy⟩

theorem Point.agrees_iff_alike (hp : p.isFinite = true) : p.agrees q = true ↔ p.Alike q := by
  obtain ⟨hx, hy⟩ := Bool.and_eq_true_iff.mp hp
  refine ⟨alike_of_agrees, fun h => Bool.and_eq_true_iff.mpr ⟨?_, ?_⟩⟩
  · exact Scalar.ComparesValues.beq_of_alike hx h.x
  · exact Scalar.ComparesValues.beq_of_alike hy h.y

end

/-- Where a segment in range begins and ends is in range. -/
theorem Segment.isFinite_stop {s : Segment α} (h : s.isFinite = true) : s.stop.isFinite = true := by
  cases s <;> exact (Bool.and_eq_true_iff.mp h).2

/-! ## Strokes, segment by segment -/

/-- Does the stroke set the point without drawing? -/
def Stroke.isMove : Stroke α → Bool
  | moveTo _ => true
  | _ => false

theorem Segment.isMove_stroke (s : Segment α) : s.stroke.isMove = false := by
  cases s <;> rfl

/-- The strokes of one segment. -/
def Segment.strokes (last : Option (Point α)) (s : Segment α) : List (Stroke α) :=
  if last.any (·.agrees s.start) then [s.stroke] else [.moveTo s.start, s.stroke]

theorem strokesFrom_cons (last : Option (Point α)) (s : Segment α) (rest : List (Segment α)) :
    strokesFrom last (s :: rest) = s.strokes last ++ strokesFrom (some s.stop) rest := by
  rw [strokesFrom, Segment.strokes]
  split <;> rfl

/-- Each segment is drawn from where the one before it ended. -/
theorem strokesFrom_eq_flatten (last : Option (Point α)) (segments : List (Segment α)) :
    strokesFrom last segments =
      (List.zipWith Segment.strokes (last :: segments.map (some ·.stop)) segments).flatten := by
  induction segments generalizing last with
  | nil => rfl
  | cons s rest ih =>
    rw [strokesFrom_cons, ih, List.map_cons, List.zipWith_cons_cons, List.flatten_cons]

/-- Every move is followed by a stroke that draws. -/
theorem isChain_strokesFrom (last : Option (Point α)) (segments : List (Segment α)) :
    (strokesFrom last segments).IsChain fun a b => ¬ (a.isMove = true ∧ b.isMove = true) := by
  induction segments generalizing last with
  | nil => exact List.isChain_nil
  | cons s rest ih =>
    have hdraw : (s.stroke :: strokesFrom (some s.stop) rest).IsChain
        fun a b => ¬ (a.isMove = true ∧ b.isMove = true) := by
      refine List.isChain_cons.mpr ⟨fun b _ h => ?_, ih _⟩
      exact absurd h.1 (by rw [s.isMove_stroke]; exact Bool.false_ne_true)
    rw [strokesFrom]
    split
    · exact hdraw
    · refine List.isChain_cons.mpr ⟨fun b hb h => ?_, hdraw⟩
      cases hb
      exact absurd h.2 (by rw [s.isMove_stroke]; exact Bool.false_ne_true)

/-! ## Reading strokes -/

/-- Two curves of one kind begin at points that differ at most in the signs of zeros, and have their
other points in common. -/
inductive Curve.Alike : Curve α → Curve α → Prop
  | line {p p' : Point α} (h : p.Alike p') (q : Point α) : Alike (.line p q) (.line p' q)
  | quadratic {p p' : Point α} (h : p.Alike p') (q r : Point α) :
    Alike (.quadratic p q r) (.quadratic p' q r)
  | cubic {p p' : Point α} (h : p.Alike p') (q r u : Point α) :
    Alike (.cubic p q r u) (.cubic p' q r u)

/-- Read from a point like its start, the stroke of a segment is its curve. -/
theorem curvesOfStrokes_stroke {s : Segment α} {p : Point α} (hp : p.Alike s.start)
    {strokes : List (Stroke α)} {curves : List (Curve α)}
    (hcurves : curvesOfStrokes (some s.stop) strokes = some curves) :
    ∃ c, curvesOfStrokes (some p) (s.stroke :: strokes) = some (c :: curves) ∧ c.Alike s.curve := by
  cases s with
  | line start offset =>
    refine ⟨_, ?_, .line hp _⟩
    rw [Segment.stroke, curvesOfStrokes, hcurves]
    rfl
  | quadratic start control stop =>
    refine ⟨_, ?_, .quadratic hp control stop⟩
    rw [Segment.stroke, curvesOfStrokes]
    rw [Segment.stop] at hcurves
    rw [hcurves]
    rfl
  | cubic start control₁ control₂ stop =>
    refine ⟨_, ?_, .cubic hp control₁ control₂ stop⟩
    rw [Segment.stroke, curvesOfStrokes]
    rw [Segment.stop] at hcurves
    rw [hcurves]
    rfl

/-- **Reading strokes gives the curves of the segments.** The reader is always where the last
segment ended, so that a stroke without a move begins where its segment does. -/
theorem exists_curvesOfStrokes [Scalar.ComparesValues α] (last : Option (Point α))
    (segments : List (Segment α)) :
    ∃ curves, curvesOfStrokes last (strokesFrom last segments) = some curves ∧
      List.Forall₂ Curve.Alike curves (segments.map Segment.curve) := by
  induction segments generalizing last with
  | nil => exact ⟨[], rfl, .nil⟩
  | cons s rest ih =>
    obtain ⟨curves, hcurves, halike⟩ := ih (some s.stop)
    rw [strokesFrom]
    split
    · rename_i hlast
      obtain ⟨p, rfl, hp⟩ := (Option.any_eq_true _ _).mp hlast
      obtain ⟨c, hc, hs⟩ := curvesOfStrokes_stroke (Point.alike_of_agrees hp) hcurves
      exact ⟨c :: curves, hc, .cons hs halike⟩
    · obtain ⟨c, hc, hs⟩ := curvesOfStrokes_stroke (Point.Alike.refl s.start) hcurves
      exact ⟨c :: curves, hc, .cons hs halike⟩

/-! ## Outlines -/

namespace Outline

/-- Does segment `k`, counted from 0, begin elsewhere than where the one before it ends? -/
def RestartsAt (outline : Outline α) (k : Nat) : Prop :=
  k = 0 ∨ ∃ s s', outline.segments[k - 1]? = some s ∧ outline.segments[k]? = some s' ∧
    ¬ s.stop.Alike s'.start

/-- Strokes draw an outline: they are read as its curves, and a move stands only where it has to. -/
structure IsDrawnBy (outline : Outline α) (strokes : List (Stroke α)) : Prop where
  /-- Each segment is read, from a point that differs at most in the signs of zeros. -/
  read : ∃ curves, curvesOfStrokes none strokes = some curves ∧
    List.Forall₂ Curve.Alike curves (outline.segments.map Segment.curve)
  /-- Each segment has one stroke, and a move to its start exactly if it restarts. -/
  moves : ∃ parts : List (List (Stroke α)), strokes = parts.flatten ∧ parts.length = outline.size ∧
    ∀ k part s, parts[k]? = some part → outline.segments[k]? = some s →
      outline.RestartsAt k ∧ part = [.moveTo s.start, s.stroke] ∨
        ¬ outline.RestartsAt k ∧ part = [s.stroke]
  /-- There are no two moves in a row. -/
  separated : strokes.IsChain fun a b => ¬ (a.isMove = true ∧ b.isMove = true)
  /-- Strokes begin with a move. -/
  begins : ∀ a ∈ strokes.head?, a.isMove = true
  /-- There are none only if there is nothing to draw. -/
  eq_nil_iff : strokes = [] ↔ outline.segments = []

variable [Scalar.ComparesValues α] {outline : Outline α}

/-- In range, points agree exactly where a segment goes on from the one before it. -/
theorem any_agrees_iff (hfinite : outline.IsFinite) {k : Nat} {last : Option (Point α)}
    {s : Segment α} (hlast : (none :: outline.segments.map (some ·.stop))[k]? = some last)
    (hs : outline.segments[k]? = some s) :
    last.any (·.agrees s.start) = true ↔ ¬ outline.RestartsAt k := by
  cases k with
  | zero =>
    obtain rfl := Option.some.inj hlast
    exact ⟨fun h => absurd h Bool.false_ne_true, fun h => absurd (.inl rfl) h⟩
  | succ k =>
    rw [List.getElem?_cons_succ, List.getElem?_map, Option.map_eq_some_iff] at hlast
    obtain ⟨before, hbefore, rfl⟩ := hlast
    have hstop := Segment.isFinite_stop (hfinite before (List.mem_of_getElem? hbefore))
    rw [Option.any_some, Point.agrees_iff_alike hstop, RestartsAt, Nat.add_sub_cancel]
    constructor
    · rintro halike (h | ⟨s₁, s₂, h₁, h₂, hne⟩)
      · cases h
      · obtain rfl := Option.some.inj (hbefore.symm.trans h₁)
        obtain rfl := Option.some.inj (hs.symm.trans h₂)
        exact hne halike
    · intro h
      by_contra hne
      exact h (.inr ⟨before, s, hbefore, hs, hne⟩)

/-- **An outline is drawn by its strokes.** -/
theorem isDrawnBy_strokes {tokens : List (Token α)} (h : ofTokens tokens = .ok outline) :
    outline.IsDrawnBy outline.strokes := by
  have hfinite := (ofTokens_eq_ok_iff_sketch.mp h).2
  refine ⟨exists_curvesOfStrokes none _, ⟨_, strokesFrom_eq_flatten none _, ?_, ?_⟩,
    isChain_strokesFrom none _, ?_, ?_⟩
  · rw [List.length_zipWith, List.length_cons, List.length_map, size]
    omega
  · intro k part s hpart hs
    obtain ⟨last, s', hlast, hs', rfl⟩ := List.getElem?_zipWith_eq_some.mp hpart
    obtain rfl := Option.some.inj (hs.symm.trans hs')
    have hagrees := any_agrees_iff hfinite hlast hs
    rw [Segment.strokes]
    split
    · rename_i h
      exact .inr ⟨hagrees.mp h, rfl⟩
    · rename_i h
      exact .inl ⟨not_not.mp (mt hagrees.mpr h), rfl⟩
  · rw [strokes]
    cases outline.segments with
    | nil => rintro a ⟨⟩
    | cons s rest =>
      rintro a ⟨⟩
      rfl
  · rw [strokes]
    cases outline.segments with
    | nil => exact ⟨fun _ => rfl, fun _ => rfl⟩
    | cons s rest => exact ⟨nofun, nofun⟩

end Outline

end

/-! A move to the other zero, a segment without length, a curve, and a move elsewhere. -/

/-- The tokens of `M0 0l1 0l-1 0M-0 -0h0q1 1 2 0M5 5v1`. -/
def zerosAndMoves : List (Token Float) :=
  [⟨.move, [0, 0], 0⟩, ⟨.line, [1, 0], 4⟩, ⟨.line, [-1, 0], 8⟩, ⟨.move, [-0, -0], 13⟩,
    ⟨.horizontal, [0], 19⟩, ⟨.quadratic, [1, 1, 2, 0], 21⟩, ⟨.move, [5, 5], 29⟩,
    ⟨.vertical, [1], 33⟩]

/-- Its outline: the third segment begins at the other zero. -/
def zerosOutline : Outline Float :=
  ⟨[.line ⟨0, 0⟩ ⟨1, 0⟩, .line ⟨1, 0⟩ ⟨-1, 0⟩, .line ⟨-0, -0⟩ ⟨0, 0⟩,
    .quadratic ⟨0, 0⟩ ⟨1, 1⟩ ⟨2, 0⟩, .line ⟨5, 5⟩ ⟨0, 1⟩]⟩

theorem Outline.isDrawnBy_strokes_zerosAndMoves :
    ofTokens zerosAndMoves = .ok zerosOutline ∧
      zerosOutline.IsDrawnBy [.moveTo ⟨0, 0⟩, .lineTo ⟨1, 0⟩, .lineTo ⟨0, 0⟩, .lineTo ⟨0, 0⟩,
        .quadTo ⟨1, 1⟩ ⟨2, 0⟩, .moveTo ⟨5, 5⟩, .lineTo ⟨5, 6⟩] := by
  have houtline : ofTokens zerosAndMoves = .ok zerosOutline := by decide +kernel
  have hstrokes : zerosOutline.strokes = [.moveTo ⟨0, 0⟩, .lineTo ⟨1, 0⟩, .lineTo ⟨0, 0⟩,
      .lineTo ⟨0, 0⟩, .quadTo ⟨1, 1⟩ ⟨2, 0⟩, .moveTo ⟨5, 5⟩, .lineTo ⟨5, 6⟩] := by
    decide +kernel
  exact ⟨houtline, hstrokes ▸ isDrawnBy_strokes houtline⟩

end PiecewiseGlyph
