import Mathlib
import PiecewiseGlyph.Proofs.Shares

/-!
# Tracing an outline

As the parameter grows from 0 to 1, the point of an outline runs through all segments, one after the
other and each from its start. With rational numbers it comes to the end of each, and it jumps from
there if the next segment begins elsewhere.

* `Outline.eval_eq_none_iff`: only an empty outline has no points, also where numbers are rounded;
* `Outline.eval_of_mem_share`: within a share the point is on the segment whose share it is;
* `Segment.eval_zero` and `Segment.eval_one`: a segment runs from its start to its end;
* `Outline.IsUnbrokenAt` says that the point does not jump at a parameter;
* `Outline.eval_traces` puts this together.
-/

open Filter Topology

namespace PiecewiseGlyph

/-! ## Ends of segments -/

namespace Segment

variable (s : Segment Rat)

@[simp] theorem eval_zero : s.eval 0 = s.start := by
  cases s <;> refine Point.ext ?_ ?_ <;> simp [eval, evalQuadratic, evalCubic, start]

@[simp] theorem eval_one : s.eval 1 = s.stop := by
  cases s <;> refine Point.ext ?_ ?_ <;> simp [eval, evalQuadratic, evalCubic, stop]

/-- The coordinates of a segment are polynomials of the parameter. -/
theorem continuous_eval_x : Continuous fun u : Rat => (s.eval u).x := by
  cases s <;>
    simp only [eval, evalQuadratic, evalCubic, Point.add_x, Point.scale_x, Point.scale_right_x] <;>
    fun_prop

theorem continuous_eval_y : Continuous fun u : Rat => (s.eval u).y := by
  cases s <;>
    simp only [eval, evalQuadratic, evalCubic, Point.add_y, Point.scale_y, Point.scale_right_y] <;>
    fun_prop

end Segment

namespace Outline

/-! ## Points -/

/-- Only an outline without segments has no points. -/
theorem eval_eq_none_iff {α : Type} [Scalar α] {outline : Outline α} {t : α} :
    outline.eval t = none ↔ outline.segments = [] := by
  constructor
  · intro h
    by_contra hsegments
    obtain ⟨p, hp⟩ := exists_eval hsegments t
    rw [h] at hp
    cases hp
  · intro h
    rw [eval, h]
    rfl

variable {outline : Outline Rat} {n k : Nat} {s : Segment Rat} {t : Rat}

/-- A parameter at or after the beginning of a share, and before its end, falls into it. The last
share has no end. -/
theorem branch_eq (hk : k < n) (hlow : (k : Rat) / n ≤ t)
    (hhigh : k + 1 ≠ n → t < ((k + 1 : Nat) : Rat) / n) : branch n t = k := by
  have hn : 0 < n := by omega
  rcases Nat.lt_trichotomy (branch n t) k with hlt | heq | hgt
  · have hless := less_branch (t := t) (by omega) hn
    have hle : ((branch n t + 1 : Nat) : Rat) / n ≤ (k : Rat) / n :=
      div_le_div_of_nonneg_right (Nat.cast_le.mpr hlt) (Nat.cast_nonneg n)
    exact absurd (hless.trans_le hle) (not_lt.mpr hlow)
  · exact heq
  · have hbranch := branch_lt hn t
    exact absurd (hhigh (by omega)) (not_less_of_lt_branch hgt)

/-- Within a share, the point is on the segment whose share it is. -/
theorem eval_of_mem_share (hs : outline.segments[k]? = some s) (hunit : t ≤ 1)
    (hlow : (k : Rat) / outline.size ≤ t)
    (hhigh : k + 1 ≠ outline.size → t < ((k + 1 : Nat) : Rat) / outline.size) :
    outline.eval t = some (s.eval (outline.size * t - k)) := by
  obtain ⟨hk, -⟩ := List.getElem?_eq_some_iff.mp hs
  have hzero : 0 ≤ t := le_trans (div_nonneg (Nat.cast_nonneg k) (Nat.cast_nonneg _)) hlow
  have hbranch : branch outline.size t = k := branch_eq hk hlow hhigh
  simp only [eval, clampUnit_of_mem hzero hunit, hbranch, hs, Option.map_some, Scalar.ofNat_rat]

/-- No share ends after 1. -/
theorem lt_one_of_lt_share (hk : k < n) (h : t < ((k + 1 : Nat) : Rat) / n) : t < 1 := by
  refine h.trans_le (div_le_one_of_le₀ ?_ (Nat.cast_nonneg n))
  exact Nat.cast_le.mpr hk

/-- Below 0 the point stays where it is at 0. -/
theorem eval_of_neg (outline : Outline Rat) (ht : t < 0) : outline.eval t = outline.eval 0 := by
  have hclamp : clampUnit t = clampUnit 0 := by simp [clampUnit, ht]
  rw [eval, eval, hclamp]

/-- Above 1 the point stays where it is at 1. -/
theorem eval_of_one_lt (outline : Outline Rat) (ht : 1 < t) : outline.eval t = outline.eval 1 := by
  have hlow : ¬ t < 0 := not_lt.mpr (le_of_lt (one_pos.trans ht))
  have hclamp : clampUnit t = clampUnit 1 := by simp [clampUnit, ht, hlow]
  rw [eval, eval, hclamp]

section Share

variable (hs : outline.segments[k]? = some s)

include hs

theorem size_pos_of_getElem? : (0 : Rat) < outline.size := by
  obtain ⟨hk, -⟩ := List.getElem?_eq_some_iff.mp hs
  exact Nat.cast_pos.mpr (Nat.zero_lt_of_lt hk)

/-- The share of a segment, from its beginning up to its end. -/
theorem eval_share {u : Rat} (hzero : 0 ≤ u) (hone : u < 1) :
    outline.eval ((k + u) / outline.size) = some (s.eval u) := by
  have hn := size_pos_of_getElem? hs
  obtain ⟨hk, -⟩ := List.getElem?_eq_some_iff.mp hs
  have hhigh : (k + u) / outline.size < ((k + 1 : Nat) : Rat) / outline.size := by
    rw [Nat.cast_succ]
    exact div_lt_div_of_pos_right (add_lt_add_right hone _) hn
  have hlow : (k : Rat) / outline.size ≤ (k + u) / outline.size :=
    div_le_div_of_nonneg_right (le_add_of_nonneg_right hzero) hn.le
  rw [eval_of_mem_share hs (lt_one_of_lt_share hk hhigh).le hlow fun _ => hhigh,
    mul_div_cancel₀ _ hn.ne', add_sub_cancel_left]

/-- At the beginning of a share is the start of its segment. -/
theorem eval_share_start : outline.eval (k / outline.size) = some s.start := by
  have h := eval_share hs (le_refl 0) zero_lt_one
  rwa [add_zero, Segment.eval_zero] at h

/-- At 1 is the end of the last segment. -/
theorem eval_one_eq_stop (hlast : k + 1 = outline.size) : outline.eval 1 = some s.stop := by
  have hn := size_pos_of_getElem? hs
  have hlow : (k : Rat) / outline.size ≤ 1 := by
    rw [div_le_one hn, ← hlast]
    exact Nat.cast_le.mpr (Nat.le_succ k)
  rw [eval_of_mem_share hs (le_refl 1) hlow fun h => absurd hlast h, ← hlast, Nat.cast_succ,
    mul_one, add_sub_cancel_left, Segment.eval_one]

end Share

/-! ## Jumps -/

/-- The point at a parameter; an outline without segments has the origin. -/
def pointAt (outline : Outline Rat) (t : Rat) : Point Rat := (outline.eval t).getD Point.origin

/-- The point within a share. -/
theorem pointAt_of_mem_share (hs : outline.segments[k]? = some s)
    (hlow : (k : Rat) / outline.size ≤ t) (hhigh : t < (k + 1) / outline.size) :
    outline.pointAt t = s.eval (outline.size * t - k) := by
  obtain ⟨hk, -⟩ := List.getElem?_eq_some_iff.mp hs
  rw [← Nat.cast_succ] at hhigh
  rw [pointAt, eval_of_mem_share hs (lt_one_of_lt_share hk hhigh).le hlow fun _ => hhigh]
  rfl

/-- The point does not jump at a parameter: both its coordinates are continuous there. -/
def IsUnbrokenAt (outline : Outline Rat) (t : Rat) : Prop :=
  ContinuousAt (fun u => (outline.pointAt u).x) t ∧ ContinuousAt (fun u => (outline.pointAt u).y) t

/-- What is continuous on both sides of a number is continuous there if both sides agree. -/
theorem continuousAt_iff_of_sides {f g h : Rat → Rat} {a b c : Rat} (hac : a < c) (hcb : c < b)
    (hg : Continuous g) (hh : Continuous h) (hleft : ∀ t ∈ Set.Ioo a c, f t = g t)
    (hright : ∀ t ∈ Set.Ico c b, f t = h t) : ContinuousAt f c ↔ h c = g c := by
  have hvalue : f c = h c := hright c ⟨le_refl c, hcb⟩
  have hlimit : Tendsto f (𝓝[<] c) (𝓝 (g c)) :=
    (hg.continuousWithinAt.tendsto).congr'
      (eventually_of_mem (Ioo_mem_nhdsLT hac) fun t ht => (hleft t ht).symm)
  constructor
  · intro hf
    have hfc : Tendsto f (𝓝[<] c) (𝓝 (f c)) := hf.continuousWithinAt
    rw [← hvalue]
    exact tendsto_nhds_unique hfc hlimit
  · intro heq
    refine continuousAt_iff_continuous_left'_right'.mpr ⟨?_, ?_⟩
    · rw [ContinuousWithinAt, hvalue, heq]
      exact hlimit
    · have hside : ContinuousWithinAt f (Set.Ici c) c :=
        (hh.continuousWithinAt).congr_of_eventuallyEq
          (eventually_of_mem (Ico_mem_nhdsGE hcb) hright) hvalue
      exact hside.mono Set.Ioi_subset_Ici_self

section Jump

variable {next : Segment Rat} (hs : outline.segments[k]? = some s)
  (hnext : outline.segments[k + 1]? = some next)

include hs hnext

/-- Between two shares a coordinate is continuous exactly if it is the same on both sides. -/
theorem continuousAt_coordinate_iff {coordinate : Point Rat → Rat}
    (hcontinuous : ∀ s : Segment Rat, Continuous fun u => coordinate (s.eval u)) :
    ContinuousAt (fun t => coordinate (outline.pointAt t)) ((k + 1) / outline.size) ↔
      coordinate next.start = coordinate s.stop := by
  have hn := size_pos_of_getElem? hs
  have hleft : ∀ t ∈ Set.Ioo ((k : Rat) / outline.size) ((k + 1) / outline.size),
      coordinate (outline.pointAt t) = coordinate (s.eval (outline.size * t - k)) := by
    rintro t ⟨hlow, hhigh⟩
    rw [pointAt_of_mem_share hs hlow.le hhigh]
  have hright : ∀ t ∈ Set.Ico ((k + 1 : Rat) / outline.size) ((k + 1 + 1) / outline.size),
      coordinate (outline.pointAt t) = coordinate (next.eval (outline.size * t - (k + 1))) := by
    rintro t ⟨hlow, hhigh⟩
    rw [← Nat.cast_succ] at hlow hhigh ⊢
    rw [pointAt_of_mem_share hnext hlow hhigh]
  have hbefore : (k : Rat) / outline.size < (k + 1) / outline.size :=
    div_lt_div_of_pos_right (lt_add_one _) hn
  have hafter : (k + 1 : Rat) / outline.size < (k + 1 + 1) / outline.size :=
    div_lt_div_of_pos_right (lt_add_one _) hn
  have hlocal : ∀ j : Rat, Continuous fun t : Rat => outline.size * t - j := fun j => by fun_prop
  have hsides := continuousAt_iff_of_sides hbefore hafter ((hcontinuous s).comp (hlocal k))
    ((hcontinuous next).comp (hlocal (k + 1))) hleft hright
  -- the local parameters at the threshold are 1 and 0
  have hstop : (outline.size : Rat) * ((k + 1) / outline.size) - k = 1 := by
    rw [mul_div_cancel₀ _ hn.ne', add_sub_cancel_left]
  have hstart : (outline.size : Rat) * ((k + 1) / outline.size) - (k + 1) = 0 := by
    rw [mul_div_cancel₀ _ hn.ne', sub_self]
  rwa [Function.comp_apply, Function.comp_apply, hstart, hstop, Segment.eval_zero,
    Segment.eval_one] at hsides

/-- Between two shares the point does not jump exactly if the second segment begins where the first
one ends. -/
theorem isUnbrokenAt_iff :
    outline.IsUnbrokenAt ((k + 1) / outline.size) ↔ next.start = s.stop := by
  rw [IsUnbrokenAt, continuousAt_coordinate_iff hs hnext Segment.continuous_eval_x,
    continuousAt_coordinate_iff hs hnext Segment.continuous_eval_y, Point.ext_iff]

end Jump

/-- **An outline is traced completely and in order.** Whatever the numbers, there is a point at
every parameter unless there are no segments, and the segment chosen is one of them. With rational
numbers, segment `k` of `n`, counted from 0, is drawn while the parameter runs from `k / n` to
`(k + 1) / n`, from its start on; there the point does not jump exactly if the next segment begins
where this one ends. The last segment ends at 1. Outside the unit interval the point is that of the
nearer bound. -/
theorem eval_traces :
    (∀ {α : Type} [Scalar α] (outline : Outline α) (t : α),
      (outline.eval t = none ↔ outline.segments = []) ∧
      (outline.segments ≠ [] → branch outline.size (clampUnit t) < outline.size)) ∧
    ∀ outline : Outline Rat,
      (∀ t, t < 0 → outline.eval t = outline.eval 0) ∧
      (∀ t, 1 < t → outline.eval t = outline.eval 1) ∧
      ∀ (k : Nat) (s : Segment Rat), outline.segments[k]? = some s →
        (∀ u, 0 ≤ u → u < 1 → outline.eval ((k + u) / outline.size) = some (s.eval u)) ∧
        outline.eval (k / outline.size) = some s.start ∧
        (k + 1 = outline.size → outline.eval 1 = some s.stop) ∧
        ∀ next, outline.segments[k + 1]? = some next →
          (outline.IsUnbrokenAt ((k + 1) / outline.size) ↔ next.start = s.stop) := by
  refine ⟨fun outline t => ⟨eval_eq_none_iff, fun h => branch_lt (List.length_pos_iff.mpr h) _⟩, ?_⟩
  refine fun outline => ⟨fun t => outline.eval_of_neg, fun t => outline.eval_of_one_lt, ?_⟩
  intro k s hs
  exact ⟨fun u => eval_share hs, eval_share_start hs, eval_one_eq_stop hs,
    fun next hnext => isUnbrokenAt_iff hs hnext⟩

/-- A line, a curve that begins where the line ends, and a line that begins elsewhere. -/
def lineCurveLine : Outline Rat :=
  ⟨[.line ⟨0, 0⟩ ⟨2, 0⟩, .quadratic ⟨2, 0⟩ ⟨4, 0⟩ ⟨4, 2⟩, .line ⟨0, 5⟩ ⟨3, 3⟩]⟩

theorem eval_traces_lineCurveLine :
    lineCurveLine.IsUnbrokenAt ((0 + 1) / 3) ∧ ¬ lineCurveLine.IsUnbrokenAt ((1 + 1) / 3) ∧
      lineCurveLine.eval ((1 + 1 / 2) / 3) = some ⟨7 / 2, 1 / 2⟩ ∧
      lineCurveLine.eval 2 = some ⟨3, 8⟩ := by
  obtain ⟨-, htrace⟩ := eval_traces
  obtain ⟨-, habove, hsegment⟩ := htrace lineCurveLine
  obtain ⟨-, -, -, hfirst⟩ := hsegment 0 _ rfl
  obtain ⟨hshare, -, -, hsecond⟩ := hsegment 1 _ rfl
  obtain ⟨-, -, hlast, -⟩ := hsegment 2 _ rfl
  refine ⟨?_, ?_, ?_, ?_⟩
  · exact (hfirst _ rfl).mpr (by decide +kernel)
  · exact mt (hsecond _ rfl).mp (by decide +kernel)
  · exact (hshare (1 / 2) (by decide +kernel) (by decide +kernel)).trans (by decide +kernel)
  · rw [habove 2 (by decide +kernel), hlast rfl]
    decide +kernel

end Outline

end PiecewiseGlyph
