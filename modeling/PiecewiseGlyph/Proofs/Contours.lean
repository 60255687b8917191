import PiecewiseGlyph.Proofs.Drawing

/-!
# Contours on their own

A control point stays with a pen until the next curve of its kind, also when that curve could not be
drawn. It is looked at only right after a curve of its kind, though, so that what is left over never
shows.

* `Token.fault` is the only fault that can be found at a token, whatever the pen (`fault_of_step`);
* `Pen.Agrees` relates pens that agree in all that a token can see, and `Agrees.stepsAlike` says
  that every token does the same with both;
* after a move any two pens agree (`stepsAlike_of_move`), so what is drawn from a move on does not
  depend on what was drawn before (`run_append_of_move`);
* `contours_independent` puts this together.
-/

namespace PiecewiseGlyph

variable {α : Type} [Scalar α]

/-! ## Faults -/

/-- What is wrong with a token that fails. -/
def Token.fault (token : Token α) : PathError where
  command := token.command.letter
  offset := token.offset
  cause :=
    if token.args.length ≠ token.command.arity then
      .argumentCount token.command.arity token.args.length
    else if token.command = .close then .unresolvedClose
    else .coordinateOverflow

namespace Pen

variable {p q p' pen : Pen α} {token : Token α}

/-- A wrong number of arguments is refused at once. -/
theorem step_of_length_ne (pen : Pen α) (h : token.args.length ≠ token.command.arity) :
    pen.step token = (pen, .error token.fault) := by
  have hfault : token.fault = ⟨token.command.letter, token.offset,
      .argumentCount token.command.arity token.args.length⟩ := by
    rw [Token.fault, if_pos h]
  obtain ⟨command, args, offset⟩ := token
  rw [hfault]
  unfold step
  split
  case h_10 => rfl
  all_goals
    rename_i hcommand hargs
    dsimp only at hcommand hargs h
    subst hcommand hargs
    exact absurd rfl h

/-- A token that fails tells its fault by itself, and leaves the pen in its place. -/
theorem fault_of_step {e : PathError} (h : pen.step token = (p', .error e)) :
    e = token.fault ∧ p'.position = pen.position ∧ p'.previous = pen.previous := by
  by_cases hargs : token.args.length = token.command.arity
  · by_cases hclose : token.command = .close
    · obtain ⟨command, args, offset⟩ := token
      obtain rfl : command = .close := hclose
      obtain rfl : args = [] := List.length_eq_zero_iff.mp hargs
      cases h
      exact ⟨rfl, rfl, rfl⟩
    · have hfault : token.fault =
          ⟨token.command.letter, token.offset, .coordinateOverflow⟩ := by
        rw [Token.fault, if_neg (not_not.mpr hargs), if_neg hclose]
      rcases pen.step_of_isDrawable ⟨hclose, hargs⟩ with
        ⟨pen', hs⟩ | ⟨pen₁, segment, hs, hposition, hprevious⟩
      · cases hs.symm.trans h
      · have hdraw := hs.symm.trans h
        unfold draw at hdraw
        split at hdraw
        · cases hdraw
        · cases hdraw
          exact ⟨hfault.symm, hposition, hprevious⟩
  · cases (step_of_length_ne pen hargs).symm.trans h
    exact ⟨rfl, rfl, rfl⟩

/-! ## Pens that agree -/

/-- Two pens agree in all that a token can see: a control point only counts right after a curve of
its kind. -/
structure Agrees (p q : Pen α) : Prop where
  position : p.position = q.position
  previous : p.previous = q.previous
  quadratic : p.previous.any Command.isQuadratic = true → p.quadraticControl = q.quadraticControl
  cubic : p.previous.any Command.isCubic = true → p.cubicControl = q.cubicControl

omit [Scalar α] in
theorem Agrees.symm (h : p.Agrees q) : q.Agrees p where
  position := h.position.symm
  previous := h.previous.symm
  quadratic hq := (h.quadratic (h.previous ▸ hq)).symm
  cubic hc := (h.cubic (h.previous ▸ hc)).symm

theorem Agrees.reflectedQuadratic_eq (h : p.Agrees q) :
    p.reflectedQuadratic = q.reflectedQuadratic := by
  rw [reflectedQuadratic, reflectedQuadratic, ← h.previous, ← h.position]
  split
  · rename_i hquadratic
    rw [h.quadratic hquadratic]
  · rfl

theorem Agrees.reflectedCubic_eq (h : p.Agrees q) : p.reflectedCubic = q.reflectedCubic := by
  rw [reflectedCubic, reflectedCubic, ← h.previous, ← h.position]
  split
  · rename_i hcubic
    rw [h.cubic hcubic]
  · rfl

/-- One token does the same with two pens: it draws the same, or fails in the same way, and if it
does not fail the pens agree afterwards. -/
structure StepsAlike (p q : Pen α) (token : Token α) : Prop where
  drawn : (p.step token).2 = (q.step token).2
  agrees : ∀ drawn, (p.step token).2 = .ok drawn → (p.step token).1.Agrees (q.step token).1

/-- What one pen draws, the other draws too. -/
theorem Agrees.exists_step (h : p.Agrees q) {drawn : Option (Segment α)}
    (hs : p.Step token p' drawn) : ∃ q', q.Step token q' drawn ∧ p'.Agrees q' := by
  have hquadratic := h.reflectedQuadratic_eq
  have hcubic := h.reflectedCubic_eq
  have hposition := h.position
  cases hs with
  | move target offset => exact ⟨_, .move target offset, rfl, rfl, nofun, nofun⟩
  | line _ straight args finite =>
    obtain ⟨hnotQuadratic, hnotCubic⟩ := Command.not_curved_of_isStraight straight
    rw [hposition] at finite ⊢
    refine ⟨_, .line token straight args finite, rfl, rfl, fun hq => ?_, fun hc => ?_⟩
    · cases hnotQuadratic.symm.trans hq
    · cases hnotCubic.symm.trans hc
  | quadratic control way offset finite =>
    rw [hposition] at finite ⊢
    exact ⟨_, .quadratic control way offset finite, rfl, rfl, fun _ => rfl, nofun⟩
  | smoothQuadratic way offset finite =>
    rw [hposition, hquadratic] at finite ⊢
    exact ⟨_, .smoothQuadratic way offset finite, rfl, rfl, fun _ => rfl, nofun⟩
  | cubic control₁ control₂ way offset finite =>
    rw [hposition] at finite ⊢
    exact ⟨_, .cubic control₁ control₂ way offset finite, rfl, rfl, nofun, fun _ => rfl⟩
  | smoothCubic control₂ way offset finite =>
    rw [hposition, hcubic] at finite ⊢
    exact ⟨_, .smoothCubic control₂ way offset finite, rfl, rfl, nofun, fun _ => rfl⟩

/-- **What a pen has left over does not show**: a token does the same with pens that agree. -/
theorem Agrees.stepsAlike (h : p.Agrees q) (token : Token α) : p.StepsAlike q token := by
  rcases hp : p.step token with ⟨p', e | drawn⟩
  · rcases hq : q.step token with ⟨q', e' | drawn⟩
    · obtain ⟨rfl, -, -⟩ := fault_of_step hp
      obtain ⟨rfl, -, -⟩ := fault_of_step hq
      exact ⟨by rw [hp, hq], by rw [hp]; nofun⟩
    · obtain ⟨p'', hs, -⟩ := h.symm.exists_step (step_eq_ok_iff.mp hq)
      cases hp.symm.trans (step_eq_ok_iff.mpr hs)
  · obtain ⟨q', hs, hagrees⟩ := h.exists_step (step_eq_ok_iff.mp hp)
    have hq := step_eq_ok_iff.mpr hs
    exact ⟨by rw [hp, hq], by rw [hp, hq]; exact fun _ _ => hagrees⟩

/-- After a move it does not matter where a pen has come from. -/
theorem stepsAlike_of_move (p q : Pen α) (h : token.command = .move) : p.StepsAlike q token := by
  by_cases hargs : token.args.length = token.command.arity
  · obtain ⟨command, args, offset⟩ := token
    obtain rfl : command = .move := h
    obtain ⟨x, y, rfl⟩ := List.length_eq_two.mp hargs
    exact ⟨rfl, fun _ _ => ⟨rfl, rfl, nofun, nofun⟩⟩
  · refine ⟨?_, ?_⟩
    · rw [step_of_length_ne p hargs, step_of_length_ne q hargs]
    · rw [step_of_length_ne p hargs]
      nofun

/-! ## Drawing on -/

theorem run_cons (pen : Pen α) (token : Token α) (rest : List (Token α)) :
    pen.run (token :: rest) = do
      let segment ← (pen.step token).2
      let segments ← (pen.step token).1.run rest
      return segment.toList ++ segments := rfl

/-- Pens that agree draw the same, as far as they draw. -/
theorem Agrees.run_eq (h : p.Agrees q) (tokens : List (Token α)) : p.run tokens = q.run tokens := by
  induction tokens generalizing p q with
  | nil => rfl
  | cons token rest ih =>
    obtain ⟨hdrawn, hagrees⟩ := h.stepsAlike token
    rw [run_cons, run_cons, ← hdrawn]
    cases hp : (p.step token).2 with
    | error e => rfl
    | ok drawn => rw [ih (hagrees drawn hp)]

/-- From a move on all pens draw the same. -/
theorem run_eq_of_move (p q : Pen α) {tokens : List (Token α)}
    (h : ∃ token ∈ tokens.head?, token.command = .move) : p.run tokens = q.run tokens := by
  obtain ⟨move, hhead, hmove⟩ := h
  obtain ⟨rest, rfl⟩ := List.head?_eq_some_iff.mp hhead
  obtain ⟨hdrawn, hagrees⟩ := stepsAlike_of_move p q hmove
  rw [run_cons, run_cons, ← hdrawn]
  cases hp : (p.step move).2 with
  | error e => rfl
  | ok drawn => rw [(hagrees drawn hp).run_eq rest]

/-- What is drawn from a move on may be drawn by any other pen. -/
theorem run_append_of_move (pen other : Pen α) (xs : List (Token α)) {ys : List (Token α)}
    (h : ∃ token ∈ ys.head?, token.command = .move) :
    pen.run (xs ++ ys) = do
      let first ← pen.run xs
      let second ← other.run ys
      return first ++ second := by
  induction xs generalizing pen with
  | nil =>
    rw [List.nil_append, run_eq_of_move pen other h]
    cases other.run ys <;> rfl
  | cons token rest ih =>
    rw [List.cons_append, run_cons, run_cons]
    simp only [ih, bind_assoc, pure_bind, List.append_assoc]

end Pen

/-- **Contours are drawn on their own.** To pens that agree every token does the same: it draws the
same or fails in the same way, and after a success the pens agree again. A token that fails leaves
the pen in its place, and the command before it is remembered. So what follows a move is drawn as if
nothing stood before it, and of the faults before and after the move the first is reported. -/
theorem contours_independent :
    (∀ p q : Pen α, p.Agrees q → ∀ token : Token α,
      (p.step token).2 = (q.step token).2 ∧
      ∀ drawn, (p.step token).2 = .ok drawn → (p.step token).1.Agrees (q.step token).1) ∧
    (∀ (pen : Pen α) (token : Token α) (e : PathError), (pen.step token).2 = .error e →
      (pen.step token).1.position = pen.position ∧ (pen.step token).1.previous = pen.previous) ∧
    ∀ xs ys : List (Token α), (∃ token ∈ ys.head?, token.command = .move) →
      Outline.ofTokens (xs ++ ys) = do
        let first ← Outline.ofTokens xs
        let second ← Outline.ofTokens ys
        return ⟨first.segments ++ second.segments⟩ := by
  refine ⟨fun p q h token => ?_, fun pen token e he => ?_, fun xs ys hmove => ?_⟩
  · obtain ⟨hdrawn, hagrees⟩ := h.stepsAlike token
    exact ⟨hdrawn, hagrees⟩
  · have hstep : pen.step token = ((pen.step token).1, .error e) := by rw [← he]
    exact (Pen.fault_of_step hstep).2
  · rw [Outline.ofTokens, Pen.run_append_of_move Pen.initial Pen.initial xs hmove, Outline.ofTokens,
      Outline.ofTokens]
    cases Pen.initial.run xs with
    | error e => rfl
    | ok first => cases Pen.initial.run ys <;> rfl

/-! A pen with control points left over, and a curve that would use one if no move stood before
it. -/

/-- A pen that drew curves once, and then a line. -/
def leftOver : Pen Float := ⟨⟨3, 4⟩, some .line, ⟨5, 10⟩, ⟨7, 7⟩⟩

/-- A pen that has come to the same place by lines only. -/
def byLines : Pen Float := ⟨⟨3, 4⟩, some .line, ⟨0, 0⟩, ⟨0, 0⟩⟩

/-- A curve of the first contour. -/
def firstContour : List (Token Float) := [⟨.move, [0, 0], 0⟩, ⟨.quadratic, [5, 10, 0, 0], 4⟩]

/-- A smooth curve of the second. -/
def secondContour : List (Token Float) := [⟨.move, [1, 1], 12⟩, ⟨.smoothQuadratic, [5, 5], 16⟩]

theorem contours_independent_leftOver :
    (leftOver.step ⟨.smoothQuadratic, [2, 0], 9⟩).2 =
        (byLines.step ⟨.smoothQuadratic, [2, 0], 9⟩).2 ∧
      (leftOver.step ⟨.cubic, [0, 0, 1, 1, 1e308, 1 / 0], 9⟩).1.position = leftOver.position ∧
      Outline.ofTokens (firstContour ++ secondContour) =
        .ok ⟨[.quadratic ⟨0, 0⟩ ⟨5, 10⟩ ⟨0, 0⟩, .quadratic ⟨1, 1⟩ ⟨1, 1⟩ ⟨6, 6⟩]⟩ := by
  obtain ⟨hagree, hfail, happend⟩ := contours_independent (α := Float)
  have hfirst : Outline.ofTokens firstContour = .ok ⟨[.quadratic ⟨0, 0⟩ ⟨5, 10⟩ ⟨0, 0⟩]⟩ := by
    decide +kernel
  have hsecond : Outline.ofTokens secondContour = .ok ⟨[.quadratic ⟨1, 1⟩ ⟨1, 1⟩ ⟨6, 6⟩]⟩ := by
    decide +kernel
  refine ⟨(hagree leftOver byLines ⟨rfl, rfl, nofun, nofun⟩ _).1, ?_, ?_⟩
  · exact (hfail leftOver _ ⟨'c', 9, .coordinateOverflow⟩ (by decide +kernel)).1
  · rw [happend firstContour secondContour ⟨_, rfl, rfl⟩, hfirst, hsecond]
    rfl

end PiecewiseGlyph
