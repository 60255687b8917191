import Mathlib.Data.Nat.Cast.Field
import PiecewiseGlyph.Formula.Piecewise
import PiecewiseGlyph.Proofs.Plane

/-!
# Equal shares

The segments of an outline share the unit interval equally, and so do the clauses of its formula.
With a rational parameter both choose the same segment.

* `Outline.branch_lt`, `Outline.not_less_of_lt_branch` and `Outline.less_branch` determine the share
  that a parameter falls into;
* `Threshold.value_ofShare`: a reduced fraction has the value of the fraction;
* `Piecewise.find?_clausesFrom`: the first clause whose bound holds belongs to that share;
* `Piecewise.eval_ofOutline`: so a function draws the outline it was made of.
-/

namespace PiecewiseGlyph

/-! ## The share of a parameter -/

namespace Outline

variable {n : Nat} {t : Rat}

theorem branch_eq_find? (n : Nat) (t : Rat) :
    branch n t = ((List.range (n - 1)).find? fun k => decide (t < ((k + 1 : Nat) : Rat) / n)).getD
      (n - 1) :=
  rfl

/-- There is a share for each parameter, also where numbers are rounded. -/
theorem branch_lt {α : Type} [Scalar α] (hn : 0 < n) (t : α) : branch n t < n := by
  rw [branch]
  cases hfind : (List.range (n - 1)).find? fun k =>
      Scalar.less t (Scalar.ofNat (k + 1) / Scalar.ofNat n) with
  | none =>
    change n - 1 < n
    omega
  | some k =>
    have hk := List.mem_range.mp (List.mem_of_find?_eq_some hfind)
    change k < n
    omega

/-- The parameter is past the shares before its own. -/
theorem not_less_of_lt_branch {j : Nat} (hj : j < branch n t) :
    ¬ t < ((j + 1 : Nat) : Rat) / n := by
  rw [branch_eq_find?] at hj
  cases hfind : (List.range (n - 1)).find? fun k => decide (t < ((k + 1 : Nat) : Rat) / n) with
  | none =>
    rw [hfind] at hj
    have hj := List.find?_eq_none.mp hfind j (List.mem_range.mpr hj)
    simpa using hj
  | some k =>
    rw [hfind] at hj
    obtain ⟨-, -, hbefore⟩ := List.find?_range_eq_some.mp hfind
    simpa using hbefore j hj

/-- It is not past its own share, unless this is the last. -/
theorem less_branch (hlast : branch n t + 1 ≠ n) (hn : 0 < n) :
    t < ((branch n t + 1 : Nat) : Rat) / n := by
  rw [branch_eq_find?] at hlast ⊢
  cases hfind : (List.range (n - 1)).find? fun k => decide (t < ((k + 1 : Nat) : Rat) / n) with
  | none =>
    rw [hfind] at hlast
    change n - 1 + 1 ≠ n at hlast
    omega
  | some k =>
    have hk := List.find?_some hfind
    exact of_decide_eq_true hk

/-- A parameter within the unit interval is kept. -/
theorem clampUnit_of_mem (h₀ : 0 ≤ t) (h₁ : t ≤ 1) : clampUnit t = t := by
  have hlow : ¬ t < 0 := not_lt.mpr h₀
  have hhigh : ¬ 1 < t := not_lt.mpr h₁
  simp [clampUnit, hlow, hhigh]

/-- An outline with segments has a point at every parameter. -/
theorem exists_eval {α : Type} [Scalar α] {outline : Outline α}
    (h : outline.segments ≠ []) (t : α) :
    ∃ p, outline.eval t = some p := by
  have hlt := branch_lt (List.length_pos_iff.mpr h) (clampUnit t)
  refine Option.isSome_iff_exists.mp ?_
  rw [eval, Option.isSome_map, isSome_getElem?]
  exact hlt

end Outline

/-! ## Weighted sums -/

namespace Helper

/-- The quadratic helper function draws quadratic Bézier curves. -/
theorem eval_quadratic (p q r : Point Rat) (t : Rat) :
    Helper.quadratic.eval [p, q, r] t = Segment.evalQuadratic p q r t := by
  refine Point.ext ?_ ?_ <;>
  · simp [Helper.eval, weights, Weight.eval, Scalar.pow, Segment.evalQuadratic]
    ring

/-- The cubic helper function draws cubic Bézier curves. -/
theorem eval_cubic (p q r u : Point Rat) (t : Rat) :
    Helper.cubic.eval [p, q, r, u] t = Segment.evalCubic p q r u t := by
  refine Point.ext ?_ ?_ <;>
  · simp [Helper.eval, weights, Weight.eval, Scalar.pow, Segment.evalCubic]
    ring

end Helper

/-! ## The clause of a parameter -/

namespace Threshold

/-- A fraction is reduced by a common divisor. -/
theorem divisor_dvd (count total : Nat) :
    divisor count total ∣ count ∧ divisor count total ∣ total := by
  rw [divisor, gcd_eq]
  rcases Nat.eq_zero_or_pos (Nat.gcd count total) with h | h
  · rw [h]
    exact ⟨Nat.one_dvd count, Nat.one_dvd total⟩
  · rw [Nat.max_eq_left h]
    exact ⟨Nat.gcd_dvd_left count total, Nat.gcd_dvd_right count total⟩

/-- Reducing a fraction does not change its value. -/
theorem value_ofShare (count total : Nat) :
    (ofShare count total).value = (count : Rat) / total := by
  obtain ⟨hcount, htotal⟩ := divisor_dvd count total
  exact Nat.cast_div_div_div_cancel_right htotal hcount

end Threshold

namespace Clause

/-- A clause that is not the last applies as long as the parameter is below its share's end. -/
theorem applies_ofSegment_iff {n k : Nat} (hlast : k + 1 ≠ n) (s : Segment Rat) (t : Rat) :
    (ofSegment n k s).applies t = true ↔ t < ((k + 1 : Nat) : Rat) / n := by
  rw [applies, ofSegment, if_neg hlast, Option.all_some, Scalar.less_rat, Threshold.value_ofShare,
    decide_eq_true_eq]

/-- The last clause always applies. -/
theorem applies_ofSegment_last {n k : Nat} (hlast : k + 1 = n) (s : Segment Rat) (t : Rat) :
    (ofSegment n k s).applies t = true := by
  rw [applies, ofSegment, if_pos hlast]
  rfl

/-- A clause draws its segment at the local parameter. -/
theorem eval_ofSegment (n k : Nat) (s : Segment Rat) (t : Rat) :
    (ofSegment n k s).eval t = s.eval (n * t - k) := by
  cases s with
  | line p offset => rfl
  | quadratic p q r => exact Helper.eval_quadratic p q r _
  | cubic p q r u => exact Helper.eval_cubic p q r u _

end Clause

namespace Piecewise

/-- The clauses draw the segments. -/
theorem segment_mem_of_mem_clausesFrom {α : Type} {n k : Nat} {segments : List (Segment α)}
    {clause : Clause α} (h : clause ∈ clausesFrom n k segments) : clause.segment ∈ segments := by
  induction segments generalizing k with
  | nil => cases h
  | cons s rest ih =>
    rcases List.mem_cons.mp h with rfl | h
    · exact List.mem_cons_self
    · exact List.mem_cons_of_mem s (ih h)

/-- The first clause that applies is the one of the parameter's share. -/
theorem find?_clausesFrom {n k : Nat} {segments : List (Segment Rat)} (t : Rat)
    (hn : n = k + segments.length) (hk : k ≤ Outline.branch n t) :
    (clausesFrom n k segments).find? (·.applies t) =
      segments[Outline.branch n t - k]?.map (Clause.ofSegment n (Outline.branch n t)) := by
  induction segments generalizing k with
  | nil => rfl
  | cons s rest ih =>
    rw [List.length_cons] at hn
    have hbranch : Outline.branch n t < n := Outline.branch_lt (by omega) t
    rw [clausesFrom, List.find?_cons]
    rcases Nat.eq_or_lt_of_le hk with rfl | hlt
    · have happlies : (Clause.ofSegment n (Outline.branch n t) s).applies t = true := by
        by_cases hlast : Outline.branch n t + 1 = n
        · exact Clause.applies_ofSegment_last hlast s t
        · exact (Clause.applies_ofSegment_iff hlast s t).mpr (Outline.less_branch hlast (by omega))
      rw [happlies, Nat.sub_self]
      rfl
    · have happlies : (Clause.ofSegment n k s).applies t = false := by
        rw [← Bool.not_eq_true, Clause.applies_ofSegment_iff (by omega)]
        exact Outline.not_less_of_lt_branch hlt
      have hsub : Outline.branch n t - k = Outline.branch n t - (k + 1) + 1 := by omega
      rw [happlies, ih (by omega) hlt, hsub, List.getElem?_cons_succ]

/-- A function draws the outline it was made of. -/
theorem eval_ofOutline (label : String) (outline : Outline Rat) (style : Style Rat) {t : Rat}
    (h₀ : 0 ≤ t) (h₁ : t ≤ 1) : (ofOutline label outline style).eval t = outline.eval t := by
  simp only [eval, ofOutline, Outline.eval, Outline.clampUnit_of_mem h₀ h₁]
  have hsize : outline.size = 0 + outline.segments.length := (Nat.zero_add _).symm
  rw [find?_clausesFrom t hsize (Nat.zero_le _), Nat.sub_zero, Option.map_map]
  refine congrArg (Option.map · _) (funext fun s => ?_)
  exact Clause.eval_ofSegment _ _ s t

end Piecewise

end PiecewiseGlyph
