import PiecewiseGlyph.Proofs.Range
import PiecewiseGlyph.Proofs.Shorthand

/-!
# Longhand

Horizontal and vertical lines are lines with one displacement of zero, and a smooth curve is a curve
whose first control point the pen supplies. In the rational plane every shorthand command can be
written out, and the outline stays the same.

* `Token.longhand` writes one token out, and `Pen.longhand` a list: each token for the pen that
  comes to it;
* `Pen.Twins` relates the pen that draws the shorthand to the one that draws the longhand. They need
  not have applied the same command last, only commands that are continued by the same smooth
  curves;
* `Twins.exists_step` and `Twins.exists_follow` keep it;
* `ofTokens_longhand`: tokens and their longhand have the same outline.
-/

namespace PiecewiseGlyph

/-! ## Writing out -/

/-- A token for a pen, written out. The control point that the pen gives to a smooth curve becomes a
displacement from its position. -/
def Token.longhand (pen : Pen Rat) (token : Token Rat) : Token Rat :=
  match token.command, token.args with
  | .horizontal, [dx] => ⟨.line, [dx, 0], token.offset⟩
  | .vertical, [dy] => ⟨.line, [0, dy], token.offset⟩
  | .smoothQuadratic, [dx, dy] =>
    let control := pen.reflectedQuadratic - pen.position
    ⟨.quadratic, [control.x, control.y, dx, dy], token.offset⟩
  | .smoothCubic, [dx₂, dy₂, dx, dy] =>
    let control := pen.reflectedCubic - pen.position
    ⟨.cubic, [control.x, control.y, dx₂, dy₂, dx, dy], token.offset⟩
  | _, _ => token

/-- The commands that are no shorthand. -/
def Command.isLonghand : Command → Bool
  | move | line | quadratic | cubic => true
  | _ => false

namespace Pen

/-- Write out tokens, each for the pen after the tokens before it. -/
def longhand (pen : Pen Rat) : List (Token Rat) → List (Token Rat)
  | [] => []
  | token :: rest => token.longhand pen :: (pen.step token).1.longhand rest

variable {p q p' pen pen' : Pen Rat} {token : Token Rat} {drawn : Option (Segment Rat)}

theorem longhand_cons (hs : pen.Step token pen' drawn) (rest : List (Token Rat)) :
    pen.longhand (token :: rest) = token.longhand pen :: pen'.longhand rest := by
  rw [longhand, step_eq_ok_iff.mpr hs]

/-- Writing out goes on where the pen is. -/
theorem longhand_append {xs : List (Token Rat)} {segments : List (Segment Rat)}
    (h : pen.follow xs = .ok (pen', segments)) (ys : List (Token Rat)) :
    pen.longhand (xs ++ ys) = pen.longhand xs ++ pen'.longhand ys := by
  induction xs generalizing pen segments with
  | nil =>
    cases h
    rfl
  | cons token rest ih =>
    obtain ⟨pen₁, drawn, more, hs, hf, rfl⟩ := follow_cons_eq_ok_iff.mp h
    rw [List.cons_append, longhand_cons hs, longhand_cons hs, ih hf]
    rfl

/-- A straight line is written out as a line by the same way. -/
theorem longhand_of_isStraight (pen : Pen Rat) (straight : token.command.isStraight = true)
    (args : token.args.length = token.command.arity) :
    (token.longhand pen).command = .line ∧ (token.longhand pen).args.length = Command.line.arity ∧
      (token.longhand pen).displacement = token.displacement := by
  obtain ⟨command, args', offset⟩ := token
  cases command <;> first | contradiction | skip
  case line => exact ⟨rfl, args, rfl⟩
  all_goals
    obtain ⟨d, rfl⟩ := List.length_eq_one_iff.mp args
    exact ⟨rfl, rfl, rfl⟩

/-- What can be drawn is written out without shorthand. -/
theorem isLonghand_longhand (pen : Pen Rat) (h : token.IsDrawable) :
    (token.longhand pen).command.isLonghand = true := by
  obtain ⟨pen', drawn, hs⟩ := pen.exists_step Scalar.isFinite_rat h
  cases hs with
  | line _ straight args => rw [(pen.longhand_of_isStraight straight args).1]; rfl
  | _ => rfl

theorem isLonghand_of_mem_longhand (pen : Pen Rat) {tokens : List (Token Rat)}
    (h : ∀ token ∈ tokens, token.IsDrawable) :
    ∀ token ∈ pen.longhand tokens, token.command.isLonghand = true := by
  induction tokens generalizing pen with
  | nil => exact nofun
  | cons token rest ih =>
    obtain ⟨htoken, hrest⟩ := List.forall_mem_cons.mp h
    exact List.forall_mem_cons.mpr ⟨pen.isLonghand_longhand htoken, ih _ hrest⟩

/-! ## Drawing the longhand -/

/-- The second pen draws the longhand of what the first draws. It is in the same place with the same
control points, and smooth curves continue what either has drawn last. -/
structure Twins (p q : Pen Rat) : Prop where
  position : q.position = p.position
  continued : ∀ kind : Smooth, q.previous.any kind.includes = p.previous.any kind.includes
  quadratic : q.quadraticControl = p.quadraticControl
  cubic : q.cubicControl = p.cubicControl

theorem Twins.refl (p : Pen Rat) : p.Twins p := ⟨rfl, fun _ => rfl, rfl, rfl⟩

/-- A token on one side is its longhand on the other. -/
theorem Twins.exists_step (h : p.Twins q) (hs : p.Step token p' drawn) :
    ∃ q', q.Step (token.longhand p) q' drawn ∧ p'.Twins q' := by
  have hposition := h.position
  cases hs with
  | move target offset => exact ⟨_, .move target offset, rfl, fun _ => rfl, h.quadratic, h.cubic⟩
  | line _ straight args =>
    obtain ⟨hline, hargs, hway⟩ := p.longhand_of_isStraight straight args
    have hdraw : q.Step (token.longhand p) _ _ :=
      .line _ (by rw [hline]; rfl) (by rw [hargs, hline]) rfl
    rw [hway, hposition, hline] at hdraw
    refine ⟨_, hdraw, rfl, fun kind => ?_, h.quadratic, h.cubic⟩
    change kind.includes .line = kind.includes token.command
    rw [kind.includes_of_isStraight straight, kind.includes_of_isStraight rfl]
  | quadratic control way offset =>
    have hdraw : q.Step _ _ _ := .quadratic control way offset rfl
    rw [hposition] at hdraw
    exact ⟨_, hdraw, rfl, fun _ => rfl, rfl, h.cubic⟩
  | smoothQuadratic way offset =>
    -- the displacement leads from the position to the control point that the first pen gives
    have hdraw : q.Step _ _ _ :=
      .quadratic (p.reflectedQuadratic - p.position) way offset rfl
    rw [hposition, add_sub_cancel] at hdraw
    exact ⟨_, hdraw, rfl, fun kind => by cases kind <;> rfl, rfl, h.cubic⟩
  | cubic control₁ control₂ way offset =>
    have hdraw : q.Step _ _ _ := .cubic control₁ control₂ way offset rfl
    rw [hposition] at hdraw
    exact ⟨_, hdraw, rfl, fun _ => rfl, h.quadratic, rfl⟩
  | smoothCubic control₂ way offset =>
    have hdraw : q.Step _ _ _ :=
      .cubic (p.reflectedCubic - p.position) control₂ way offset rfl
    rw [hposition, add_sub_cancel] at hdraw
    exact ⟨_, hdraw, rfl, fun kind => by cases kind <;> rfl, h.quadratic, rfl⟩

/-- Tokens on one side are their longhand on the other. -/
theorem Twins.exists_follow {tokens : List (Token Rat)} {segments : List (Segment Rat)}
    (h : p.Twins q) (hfollow : p.follow tokens = .ok (p', segments)) :
    ∃ q', q.follow (p.longhand tokens) = .ok (q', segments) ∧ p'.Twins q' := by
  induction tokens generalizing p q segments with
  | nil =>
    cases hfollow
    exact ⟨q, rfl, h⟩
  | cons token rest ih =>
    obtain ⟨p₁, drawn, more, hs, hf, rfl⟩ := follow_cons_eq_ok_iff.mp hfollow
    obtain ⟨q₁, hs', h₁⟩ := h.exists_step hs
    obtain ⟨q', hf', h'⟩ := ih h₁ hf
    rw [longhand_cons hs]
    exact ⟨q', follow_cons_eq_ok_iff.mpr ⟨q₁, drawn, more, hs', hf', rfl⟩, h'⟩

end Pen

/-! ## Outlines -/

/-- **Shorthand is only notation.** Tokens that can be drawn with and their longhand have the same
outline, and there is one. No shorthand is left, and each token is written out for the pen that
comes to it; the pen that draws the longhand is then its twin. -/
theorem ofTokens_longhand {tokens : List (Token Rat)} (h : ∀ token ∈ tokens, token.IsDrawable) :
    (∃ outline, Outline.ofTokens tokens = .ok outline ∧
      Outline.ofTokens (Pen.initial.longhand tokens) = .ok outline) ∧
    (∀ token ∈ Pen.initial.longhand tokens, token.command.isLonghand = true) ∧
    ∀ before token after, tokens = before ++ token :: after →
      ∃ pen pen' drawn rest, Pen.initial.follow before = .ok (pen, drawn) ∧
        Pen.initial.longhand tokens =
          Pen.initial.longhand before ++ token.longhand pen :: rest ∧
        Pen.initial.follow (Pen.initial.longhand before) = .ok (pen', drawn) ∧ pen.Twins pen' := by
  obtain ⟨pen, segments, hfollow⟩ := Pen.exists_follow Scalar.isFinite_rat Pen.initial h
  refine ⟨⟨⟨segments⟩, ?_, ?_⟩, Pen.initial.isLonghand_of_mem_longhand h, ?_⟩
  · exact Outline.ofTokens_eq_ok_iff.mpr ⟨pen, hfollow⟩
  · obtain ⟨pen', hfollow', -⟩ := (Pen.Twins.refl Pen.initial).exists_follow hfollow
    exact Outline.ofTokens_eq_ok_iff.mpr ⟨pen', hfollow'⟩
  · rintro before token after rfl
    obtain ⟨pen₁, drawn, rest, h₁, h₂, -⟩ := Pen.follow_append_eq_ok_iff.mp hfollow
    obtain ⟨pen₂, one, more, hs, -, -⟩ := Pen.follow_cons_eq_ok_iff.mp h₂
    obtain ⟨pen₁', h₁', htwins⟩ := (Pen.Twins.refl Pen.initial).exists_follow h₁
    refine ⟨pen₁, pen₁', drawn, pen₂.longhand after, h₁, ?_, h₁', htwins⟩
    rw [Pen.longhand_append h₁, Pen.longhand_cons hs]

/-- Chains of smooth curves of both kinds, a cubic one after lines, and a line on each axis:
`M1 1h2v-3s1 2 3 0s1 1 2 0q0 4 4 0t4 0t4 0`. -/
def chains : List (Token Rat) :=
  [⟨.move, [1, 1], 0⟩, ⟨.horizontal, [2], 4⟩, ⟨.vertical, [-3], 6⟩,
    ⟨.smoothCubic, [1, 2, 3, 0], 9⟩, ⟨.smoothCubic, [1, 1, 2, 0], 17⟩,
    ⟨.quadratic, [0, 4, 4, 0], 25⟩, ⟨.smoothQuadratic, [4, 0], 33⟩,
    ⟨.smoothQuadratic, [4, 0], 37⟩]

/-- Written out, they are `M1 1l2 0l0 -3c0 0 1 2 3 0c2 -2 1 1 2 0q0 4 4 0q4 -4 4 0q0 4 4 0`. -/
theorem ofTokens_longhand_chains :
    (∀ token ∈ chains, token.command ≠ .close ∧ token.args.length = token.command.arity) ∧
      Pen.initial.longhand chains =
        [⟨.move, [1, 1], 0⟩, ⟨.line, [2, 0], 4⟩, ⟨.line, [0, -3], 6⟩,
          ⟨.cubic, [0, 0, 1, 2, 3, 0], 9⟩, ⟨.cubic, [2, -2, 1, 1, 2, 0], 17⟩,
          ⟨.quadratic, [0, 4, 4, 0], 25⟩, ⟨.quadratic, [4, -4, 4, 0], 33⟩,
          ⟨.quadratic, [0, 4, 4, 0], 37⟩] ∧
      ∃ outline, Outline.ofTokens chains = .ok outline ∧
        Outline.ofTokens (Pen.initial.longhand chains) = .ok outline ∧
        outline.segments[6]? = some (.quadratic ⟨16, -2⟩ ⟨16, 2⟩ ⟨20, -2⟩) := by
  have hdrawable : ∀ token ∈ chains,
      token.command ≠ .close ∧ token.args.length = token.command.arity := by decide
  obtain ⟨⟨outline, hshort, hlong⟩, -, -⟩ := ofTokens_longhand hdrawable
  refine ⟨hdrawable, by decide +kernel, outline, hshort, hlong, ?_⟩
  have hlast : (Outline.ofTokens chains).toOption.bind (·.segments[6]?) =
      some (.quadratic ⟨16, -2⟩ ⟨16, 2⟩ ⟨20, -2⟩) := by decide +kernel
  rw [hshort] at hlast
  exact hlast

end PiecewiseGlyph
