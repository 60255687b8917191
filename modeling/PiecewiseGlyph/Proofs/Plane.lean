import Mathlib.Algebra.Order.Ring.Rat
import Mathlib.Tactic.Abel
import Mathlib.Tactic.Linarith
import Mathlib.Tactic.Ring
import PiecewiseGlyph.Formula.Style

/-!
# The rational plane

With rational coordinates nothing is rounded: the operations of `Scalar` are those of the field of
rational numbers, and points are a commutative group under addition.

* `Scalar.ofNat_rat`, `Scalar.less_rat` and their like translate the operations;
* `Point.origin_eq_zero`, `Point.opposite_eq_neg` and `Point.isOrigin_iff` do the same for points;
* `Point.reflect_eq_center_iff`: only the center is its own image under reflection in it.
-/

namespace PiecewiseGlyph

/-! ## Coordinates -/

namespace Scalar

@[simp] theorem ofNat_rat (n : Nat) : (ofNat n : Rat) = n := rfl

@[simp] theorem zero_rat : (zero : Rat) = 0 := rfl

@[simp] theorem isFinite_rat (a : Rat) : isFinite a = true := rfl

theorem pow_rat (a : Rat) (n : Nat) : pow a n = a ^ n := by
  induction n with
  | zero => rw [pow, pow_zero, ofNat_rat, Nat.cast_one]
  | succ n ih => rw [pow, ih, pow_succ]

@[simp] theorem less_rat (a b : Rat) : less a b = decide (a < b) := rfl

end Scalar

/-! ## Points -/

namespace Point

attribute [ext] Point

theorem isOrigin_iff (p : Point Rat) : p.isOrigin = true ↔ p = origin := by
  change (decide (p.x = 0) && decide (p.y = 0)) = true ↔ _
  rw [Bool.and_eq_true, decide_eq_true_eq, decide_eq_true_eq, Point.ext_iff]
  rfl

instance : Zero (Point Rat) := ⟨origin⟩

instance : Neg (Point Rat) := ⟨opposite⟩

instance : AddCommGroup (Point Rat) where
  add_assoc p q r := Point.ext (add_assoc p.x q.x r.x) (add_assoc p.y q.y r.y)
  zero_add p := Point.ext (zero_add p.x) (zero_add p.y)
  add_zero p := Point.ext (add_zero p.x) (add_zero p.y)
  add_comm p q := Point.ext (add_comm p.x q.x) (add_comm p.y q.y)
  neg_add_cancel p := by
    refine Point.ext ?_ ?_
    · change 0 - p.x + p.x = 0
      ring
    · change 0 - p.y + p.y = 0
      ring
  nsmul := nsmulRec
  zsmul := zsmulRec

@[simp] theorem zero_x : (0 : Point Rat).x = 0 := rfl

@[simp] theorem zero_y : (0 : Point Rat).y = 0 := rfl

@[simp] theorem scale_x (a : Rat) (p : Point Rat) : (a * p).x = a * p.x := rfl

@[simp] theorem scale_y (a : Rat) (p : Point Rat) : (a * p).y = a * p.y := rfl

@[simp] theorem scale_right_x (p : Point Rat) (a : Rat) : (p * a).x = p.x * a := rfl

@[simp] theorem scale_right_y (p : Point Rat) (a : Rat) : (p * a).y = p.y * a := rfl

@[simp] theorem origin_eq_zero : (origin : Point Rat) = 0 := rfl

@[simp] theorem opposite_eq_neg (p : Point Rat) : p.opposite = -p := rfl

@[simp] theorem isFinite_rat (p : Point Rat) : p.isFinite = true := rfl

/-- Only the center is its own image. -/
theorem reflect_eq_center_iff (p center : Point Rat) : p.reflect center = center ↔ p = center := by
  simp only [Point.ext_iff, reflect, Scalar.ofNat_rat, Nat.cast_ofNat]
  constructor
  · rintro ⟨hx, hy⟩
    exact ⟨by linarith, by linarith⟩
  · rintro ⟨hx, hy⟩
    rw [hx, hy]
    exact ⟨by ring, by ring⟩

end Point

end PiecewiseGlyph
