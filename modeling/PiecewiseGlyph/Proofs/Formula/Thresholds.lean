import PiecewiseGlyph.Proofs.Formula.Decoding

/-!
# Thresholds of formulas

The clauses of a formula are bounded by the ends of equal shares, written as fractions in lowest
terms.

* `Threshold.gcdWithin_eq_some`: the remainder algorithm comes to its end, since each remainder is
  below the last;
* `Threshold.Reduces` says that a threshold is a proper fraction in lowest terms, and
  `reduces_ofShare` that reducing a fraction gives one; `Reduces.lt` compares two of one
  denominator;
* `Clause.IsShareOf` is what a clause says of its share, and `Piecewise.isShareOf_of_getElem?` that
  the clauses of an outline say so;
* `Formula.clauses_of_latex`: these clauses are what the text of a formula consists of.
-/

namespace PiecewiseGlyph

/-! ## Fractions in lowest terms -/

namespace Threshold

/-- The greatest common divisor by repeated remainders, given up after a number of calls. -/
def gcdWithin : Nat → Nat → Nat → Option Nat
  | 0, _, _ => none
  | calls + 1, a, b => if b = 0 then some a else gcdWithin calls b (a % b)

/-- As many calls suffice as the second number has predecessors, and one more. -/
theorem gcdWithin_eq_some {calls a b : Nat} (h : b < calls) :
    gcdWithin calls a b = some (gcd a b) := by
  induction calls generalizing a b with
  | zero => exact absurd h (Nat.not_lt_zero b)
  | succ calls ih =>
    rw [gcdWithin, gcd]
    split
    · rfl
    · rename_i hb
      have hmod : a % b < b := Nat.mod_lt a (Nat.pos_of_ne_zero hb)
      exact ih (by omega)

/-- The fraction `count / total` in lowest terms, between 0 and 1. -/
structure Reduces (b : Threshold) (count total : Nat) : Prop where
  value : b.numerator * total = count * b.denominator
  coprime : b.numerator.Coprime b.denominator
  numerator_pos : 0 < b.numerator
  numerator_lt : b.numerator < b.denominator

theorem reduces_ofShare {count total : Nat} (hcount : 0 < count) (htotal : count < total) :
    (ofShare count total).Reduces count total := by
  obtain ⟨hdvd, hdvd'⟩ := divisor_dvd count total
  have hdivisor : divisor count total = Nat.gcd count total := by
    rw [divisor, gcd_eq, Nat.max_eq_left (Nat.gcd_pos_of_pos_left total hcount)]
  refine ⟨?_, ?_, ?_, ?_⟩
  · change count / divisor count total * total = count * (total / divisor count total)
    rw [Nat.div_mul_right_comm hdvd, Nat.mul_div_assoc count hdvd']
  · change (count / divisor count total).Coprime (total / divisor count total)
    rw [hdivisor]
    exact Nat.coprime_div_gcd_div_gcd (Nat.gcd_pos_of_pos_left total hcount)
  · exact Nat.div_pos (Nat.le_of_dvd hcount hdvd) (one_le_divisor count total)
  · exact Nat.div_lt_div_of_lt_of_dvd hdvd' htotal

/-- Of two fractions, the one with the greater count is the greater. -/
theorem Reduces.lt {b b' : Threshold} {count count' total : Nat} (h : b.Reduces count total)
    (h' : b'.Reduces count' total) (hcount : count < count') :
    b.numerator * b'.denominator < b'.numerator * b.denominator := by
  have hpos : 0 < b.denominator * b'.denominator :=
    Nat.mul_pos (h.numerator_pos.trans h.numerator_lt) (h'.numerator_pos.trans h'.numerator_lt)
  refine Nat.lt_of_mul_lt_mul_right (a := total) ?_
  calc b.numerator * b'.denominator * total
      = count * (b.denominator * b'.denominator) := by
        rw [Nat.mul_right_comm, h.value, Nat.mul_assoc]
    _ < count' * (b.denominator * b'.denominator) := Nat.mul_lt_mul_of_pos_right hcount hpos
    _ = b'.numerator * b.denominator * total := by
        rw [Nat.mul_right_comm, h'.value, Nat.mul_assoc, Nat.mul_comm b.denominator]

end Threshold

/-! ## Clauses -/

section Clauses

variable {α : Type}

/-- What a clause says of share `k` of `n`, counted from 0: it draws at `n * t - k`, and unless the
share is the last it is written with the end of the share as its condition. -/
structure Clause.IsShareOf (clause : Clause α) (n k : Nat) : Prop where
  parameter : clause.parameter = ⟨n, k⟩
  last : k + 1 = n → clause.bound = none ∧ clause.condition = ""
  bounded : k + 1 ≠ n → ∃ b : Threshold, clause.bound = some b ∧ b.Reduces (k + 1) n ∧
    clause.condition =
      "t<\\frac\x7b" ++ b.numerator.repr ++ "\x7d\x7b" ++ b.denominator.repr ++ "\x7d: "

theorem Clause.isShareOf_ofSegment {n k : Nat} (hk : k < n) (s : Segment α) :
    (Clause.ofSegment n k s).IsShareOf n k := by
  refine ⟨rfl, fun hlast => ?_, fun hlast => ?_⟩
  · rw [Clause.condition, Clause.ofSegment, if_pos hlast]
    exact ⟨rfl, rfl⟩
  · rw [Clause.condition, Clause.ofSegment, if_neg hlast]
    exact ⟨_, rfl, Threshold.reduces_ofShare (Nat.succ_pos k) (by omega), rfl⟩

namespace Piecewise

theorem getElem?_clausesFrom (n k j : Nat) (segments : List (Segment α)) :
    (clausesFrom n k segments)[j]? = segments[j]?.map (Clause.ofSegment n (k + j)) := by
  induction segments generalizing k j with
  | nil => rfl
  | cons s rest ih =>
    cases j with
    | zero => rfl
    | succ j =>
      rw [clausesFrom, List.getElem?_cons_succ, List.getElem?_cons_succ, ih,
        Nat.succ_add_eq_add_succ]

/-- Each clause of an outline belongs to its share. -/
theorem isShareOf_of_getElem? {outline : Outline α} {k : Nat} {clause : Clause α}
    (h : (clausesFrom outline.size 0 outline.segments)[k]? = some clause) :
    clause.IsShareOf outline.size k := by
  rw [getElem?_clausesFrom, Nat.zero_add] at h
  obtain ⟨s, hs, rfl⟩ := Option.map_eq_some_iff.mp h
  obtain ⟨hk, -⟩ := List.getElem?_eq_some_iff.mp hs
  exact Clause.isShareOf_ofSegment hk s

end Piecewise

/-- The bounds of two clauses are in their order. -/
theorem Clause.IsShareOf.bound_lt {clause clause' : Clause α} {n j k : Nat} {b b' : Threshold}
    (h : clause.IsShareOf n j) (h' : clause'.IsShareOf n k) (hjk : j < k)
    (hb : clause.bound = some b) (hb' : clause'.bound = some b') :
    b.numerator * b'.denominator < b'.numerator * b.denominator := by
  have hreduces : ∀ {c : Clause α} {i : Nat} {a : Threshold}, c.IsShareOf n i → c.bound = some a →
      a.Reduces (i + 1) n := by
    intro c i a hc ha
    by_cases hlast : i + 1 = n
    · rw [(hc.last hlast).1] at ha
      cases ha
    · obtain ⟨a', ha', hreduces, -⟩ := hc.bounded hlast
      obtain rfl := Option.some.inj (ha'.symm.trans ha)
      exact hreduces
  exact (hreduces h hb).lt (hreduces h' hb') (Nat.succ_lt_succ hjk)

end Clauses

/-! ## Texts -/

namespace Formula

/-- **Thresholds are exact and in order.** The text of a formula consists of one clause for each
segment, and if it can be decoded it is read as just these. The last clause has no condition. Every
other has the end of its share as a fraction in lowest terms, so that the bounds grow from clause to
clause. Reducing a fraction needs finitely many remainders, for any two numbers, and never divides
by zero. -/
theorem clauses_of_latex :
    (∀ label (outline : Outline Float) (style : Style Float), ∃ clauses : List (Clause Float),
      (ofOutline label outline style).latex =
          functionName label ++
            "\\left(P,\\ t,\\ s_\x7bcale\x7d\\right)=P+\\frac\x7bs_\x7bcale\x7d\x7d\x7b" ++
            formulaNumber style.normalization ++ "\x7d\\left\\\x7b" ++
            ",\\ ".intercalate (clauses.map (Clause.latex formulaNumber style)) ++ "\\right\\\x7d" ∧
        (Decodable outline style →
          (Reading.readEquation Scalar.read? (ofOutline label outline style).latex.toList).bind
            Reading.Equation.piecewise? =
              some ⟨label, formulaValue style.normalization, clauses.map (.map formulaValue)⟩) ∧
        clauses.map Clause.segment = outline.segments ∧
        (∀ (k : Nat) (clause : Clause Float), clauses[k]? = some clause →
          clause.IsShareOf outline.size k) ∧
        ∀ (j k : Nat) (clause clause' : Clause Float) (b b' : Threshold), j < k →
          clauses[j]? = some clause → clauses[k]? = some clause' →
          clause.bound = some b → clause'.bound = some b' →
          b.numerator * b'.denominator < b'.numerator * b.denominator) ∧
    ∀ c d : Nat, (∀ calls, d < calls → Threshold.gcdWithin calls c d = some (Nat.gcd c d)) ∧
      Threshold.gcd c d = Nat.gcd c d ∧ 0 < Threshold.divisor c d ∧
      Threshold.ofShare c d = ⟨c / Threshold.divisor c d, d / Threshold.divisor c d⟩ := by
  refine ⟨fun label outline style => ?_, fun c d => ⟨fun calls hcalls => ?_, ?_, ?_, rfl⟩⟩
  · refine ⟨Piecewise.clausesFrom outline.size 0 outline.segments,
      latex_ofOutline label outline style,
      fun h => Reading.piecewise?_latex label h.helperName h.writes_divisor h.writes_points,
      Piecewise.map_segment_clausesFrom _ _ _,
      fun k clause => Piecewise.isShareOf_of_getElem?, ?_⟩
    intro j k clause clause' b b' hjk hj hk hb hb'
    exact (Piecewise.isShareOf_of_getElem? hj).bound_lt (Piecewise.isShareOf_of_getElem? hk)
      hjk hb hb'
  · rw [Threshold.gcdWithin_eq_some hcalls, Threshold.gcd_eq]
  · exact Threshold.gcd_eq c d
  · exact Threshold.one_le_divisor c d

/-- Four segments, so that the second share ends at one half. -/
def fourSegments : Outline Float :=
  ⟨[.line ⟨0, 0⟩ ⟨1, 0⟩, .quadratic ⟨1, 0⟩ ⟨2, 0⟩ ⟨2, 1⟩, .line ⟨2, 1⟩ ⟨0, 0.5⟩,
    .line ⟨2, 1.5⟩ ⟨-2, -1.5⟩]⟩

theorem clauses_of_latex_fourSegments :
    Decodable fourSegments Style.default ∧ Threshold.gcdWithin 5 6 4 = some 2 ∧
      ∃ f : Piecewise Rat, (Reading.readEquation Scalar.read?
          (ofOutline "4" fourSegments Style.default).latex.toList).bind
            Reading.Equation.piecewise? = some f ∧
        f.clauses[1]?.bind Clause.bound = some ⟨1, 2⟩ := by
  have hdecodable : Decodable fourSegments Style.default :=
    ⟨rfl, rfl, by decide +kernel, by decide +kernel⟩
  obtain ⟨htext, hgcd⟩ := clauses_of_latex
  obtain ⟨clauses, -, hread, hsegments, hshare, -⟩ := htext "4" fourSegments Style.default
  refine ⟨hdecodable, (hgcd 6 4).1 5 (by decide), _, hread hdecodable, ?_⟩
  have hlength : clauses.length = 4 := by
    rw [← List.length_map (f := Clause.segment), hsegments]
    rfl
  obtain ⟨clause, hclause⟩ : ∃ clause, clauses[1]? = some clause :=
    Option.isSome_iff_exists.mp (by simp [hlength])
  obtain ⟨b, hb, hreduces, -⟩ := (hshare 1 clause hclause).bounded (by decide)
  rw [List.getElem?_map, hclause]
  change clause.bound = _
  rw [hb]
  obtain ⟨numerator, denominator⟩ := b
  have hvalue : numerator * 4 = 2 * denominator := hreduces.value
  have hcoprime : numerator.Coprime denominator := hreduces.coprime
  obtain rfl : denominator = numerator * 2 := by omega
  obtain rfl : numerator = 1 := Nat.Coprime.eq_one_of_dvd hcoprime (Nat.dvd_mul_right _ _)
  rfl

end Formula

end PiecewiseGlyph
