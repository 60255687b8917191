import Mathlib.Data.List.Basic
import PiecewiseGlyph.Outline.Basic
import PiecewiseGlyph.Result

/-!
# Drawing step by step

What one token does to a pen, as a relation with one constructor per way of drawing, and what a list
of tokens does.

* `Pen.Step` is the relation, and `step_eq_ok_iff` says that `Pen.step` computes it;
* `Token.IsDrawable` says that a token is complete and no closing, and `step_of_isDrawable` that
  such a token moves the pen or draws a segment; only then can there be a step (`Step.isDrawable`);
* `Pen.follow` applies tokens one after the other and keeps the pen, which `Pen.run` forgets
  (`run_eq_map_follow`, `Outline.ofTokens_eq_ok_iff`). What follows two lists is told by
  `follow_append_eq_ok_iff` and `follow_append_eq_error_iff`.
-/

namespace PiecewiseGlyph

variable {α : Type} [Scalar α]

/-- Does the command draw a straight line? -/
def Command.isStraight : Command → Bool
  | line | horizontal | vertical => true
  | _ => false

theorem Command.draws_of_isStraight {c : Command} (h : c.isStraight = true) : c.draws = true := by
  cases c <;> first | rfl | cases h

/-- A command that draws a straight line draws no curve. -/
theorem Command.not_curved_of_isStraight {c : Command} (h : c.isStraight = true) :
    c.isQuadratic = false ∧ c.isCubic = false := by
  cases c <;> first | exact ⟨rfl, rfl⟩ | cases h

/-- Is this a token to draw with: no closing, and with as many arguments as its command takes? -/
def Token.IsDrawable (token : Token α) : Prop :=
  token.command ≠ .close ∧ token.args.length = token.command.arity

namespace Pen

/-! ## One token -/

/-- What a token does if nothing is wrong: the pen after it and the segment drawn. -/
inductive Step (pen : Pen α) : Token α → Pen α → Option (Segment α) → Prop
  | move (target : Point α) (offset : Nat) :
    Step pen ⟨.move, [target.x, target.y], offset⟩
      ⟨target, some .move, pen.quadraticControl, pen.cubicControl⟩ none
  | line (token : Token α) (straight : token.command.isStraight = true)
    (args : token.args.length = token.command.arity)
    (finite : (Segment.line pen.position token.displacement).isFinite = true) :
    Step pen token
      ⟨pen.position + token.displacement, some token.command, pen.quadraticControl,
        pen.cubicControl⟩
      (some (.line pen.position token.displacement))
  | quadratic (control way : Point α) (offset : Nat)
    (finite : (Segment.quadratic pen.position (pen.position + control)
      (pen.position + way)).isFinite = true) :
    Step pen ⟨.quadratic, [control.x, control.y, way.x, way.y], offset⟩
      ⟨pen.position + way, some .quadratic, pen.position + control, pen.cubicControl⟩
      (some (.quadratic pen.position (pen.position + control) (pen.position + way)))
  | smoothQuadratic (way : Point α) (offset : Nat)
    (finite : (Segment.quadratic pen.position pen.reflectedQuadratic
      (pen.position + way)).isFinite = true) :
    Step pen ⟨.smoothQuadratic, [way.x, way.y], offset⟩
      ⟨pen.position + way, some .smoothQuadratic, pen.reflectedQuadratic, pen.cubicControl⟩
      (some (.quadratic pen.position pen.reflectedQuadratic (pen.position + way)))
  | cubic (control₁ control₂ way : Point α) (offset : Nat)
    (finite : (Segment.cubic pen.position (pen.position + control₁) (pen.position + control₂)
      (pen.position + way)).isFinite = true) :
    Step pen ⟨.cubic, [control₁.x, control₁.y, control₂.x, control₂.y, way.x, way.y], offset⟩
      ⟨pen.position + way, some .cubic, pen.quadraticControl, pen.position + control₂⟩
      (some (.cubic pen.position (pen.position + control₁) (pen.position + control₂)
        (pen.position + way)))
  | smoothCubic (control₂ way : Point α) (offset : Nat)
    (finite : (Segment.cubic pen.position pen.reflectedCubic (pen.position + control₂)
      (pen.position + way)).isFinite = true) :
    Step pen ⟨.smoothCubic, [control₂.x, control₂.y, way.x, way.y], offset⟩
      ⟨pen.position + way, some .smoothCubic, pen.quadraticControl, pen.position + control₂⟩
      (some (.cubic pen.position pen.reflectedCubic (pen.position + control₂)
        (pen.position + way)))

theorem draw_eq_ok_iff {pen pen' : Pen α} {token : Token α} {segment : Segment α}
    {drawn : Option (Segment α)} :
    pen.draw token segment = (pen', .ok drawn) ↔
      segment.isFinite = true ∧
        pen' = { pen with position := segment.stop, previous := some token.command } ∧
        drawn = some segment := by
  unfold draw
  split <;> rename_i hfin
  · simp only [Prod.mk.injEq, Except.ok.injEq, hfin, true_and]
    exact ⟨fun ⟨h, h'⟩ => ⟨h.symm, h'.symm⟩, fun ⟨h, h'⟩ => ⟨h.symm, h'.symm⟩⟩
  · simp [hfin]

theorem step_of_step_eq_ok {pen pen' : Pen α} {token : Token α} {drawn : Option (Segment α)}
    (h : pen.step token = (pen', .ok drawn)) : pen.Step token pen' drawn := by
  obtain ⟨command, args, offset⟩ := token
  unfold step at h
  split at h
  case h_9 => cases h
  case h_10 => cases h
  all_goals
    rename_i hc ha
    dsimp only at hc ha
    subst hc ha
  case h_1 x y =>
    cases h
    exact .move ⟨x, y⟩ offset
  all_goals obtain ⟨hfin, rfl, rfl⟩ := draw_eq_ok_iff.mp h
  case h_2 dx dy => exact .line ⟨.line, [dx, dy], offset⟩ rfl rfl hfin
  case h_3 dx => exact .line ⟨.horizontal, [dx], offset⟩ rfl rfl hfin
  case h_4 dy => exact .line ⟨.vertical, [dy], offset⟩ rfl rfl hfin
  case h_5 dx₁ dy₁ dx dy => exact .quadratic ⟨dx₁, dy₁⟩ ⟨dx, dy⟩ offset hfin
  case h_6 dx dy => exact .smoothQuadratic ⟨dx, dy⟩ offset hfin
  case h_7 dx₁ dy₁ dx₂ dy₂ dx dy => exact .cubic ⟨dx₁, dy₁⟩ ⟨dx₂, dy₂⟩ ⟨dx, dy⟩ offset hfin
  case h_8 dx₂ dy₂ dx dy => exact .smoothCubic ⟨dx₂, dy₂⟩ ⟨dx, dy⟩ offset hfin

/-- A straight line is drawn to the token's displacement. -/
theorem step_straight (pen : Pen α) {token : Token α} (straight : token.command.isStraight = true)
    (args : token.args.length = token.command.arity) :
    pen.step token = pen.draw token (.line pen.position token.displacement) := by
  obtain ⟨command, args', offset⟩ := token
  cases command <;> first | contradiction | skip
  case line =>
    obtain ⟨dx, dy, rfl⟩ := List.length_eq_two.mp args
    rfl
  all_goals
    obtain ⟨d, rfl⟩ := List.length_eq_one_iff.mp args
    rfl

/-- The relation is what `Pen.step` computes. -/
theorem step_eq_ok_iff {pen pen' : Pen α} {token : Token α} {drawn : Option (Segment α)} :
    pen.step token = (pen', .ok drawn) ↔ pen.Step token pen' drawn := by
  refine ⟨step_of_step_eq_ok, fun h => ?_⟩
  cases h with
  | move target offset => rfl
  | line _ straight args finite =>
    rw [step_straight pen straight args, draw_eq_ok_iff]
    exact ⟨finite, rfl, rfl⟩
  | quadratic control way offset finite => exact draw_eq_ok_iff.mpr ⟨finite, rfl, rfl⟩
  | smoothQuadratic way offset finite => exact draw_eq_ok_iff.mpr ⟨finite, rfl, rfl⟩
  | cubic control₁ control₂ way offset finite => exact draw_eq_ok_iff.mpr ⟨finite, rfl, rfl⟩
  | smoothCubic control₂ way offset finite => exact draw_eq_ok_iff.mpr ⟨finite, rfl, rfl⟩

/-- A token that can be drawn with either moves the pen, or draws one segment if this stays in
range. Up to there only control points have changed. -/
theorem step_of_isDrawable (pen : Pen α) {token : Token α} (h : token.IsDrawable) :
    (∃ pen', pen.step token = (pen', .ok none)) ∨
      ∃ (pen₁ : Pen α) (segment : Segment α), pen.step token = pen₁.draw token segment ∧
        pen₁.position = pen.position ∧ pen₁.previous = pen.previous := by
  obtain ⟨command, args, offset⟩ := token
  obtain ⟨hclose, hargs⟩ := h
  cases command
  case close => exact absurd rfl hclose
  case move =>
    match args, hargs with
    | [x, y], _ => exact .inl ⟨_, rfl⟩
  case quadratic =>
    match args, hargs with
    | [dx₁, dy₁, dx, dy], _ => exact .inr ⟨_, _, rfl, rfl, rfl⟩
  case smoothQuadratic =>
    match args, hargs with
    | [dx, dy], _ => exact .inr ⟨_, _, rfl, rfl, rfl⟩
  case cubic =>
    match args, hargs with
    | [dx₁, dy₁, dx₂, dy₂, dx, dy], _ => exact .inr ⟨_, _, rfl, rfl, rfl⟩
  case smoothCubic =>
    match args, hargs with
    | [dx₂, dy₂, dx, dy], _ => exact .inr ⟨_, _, rfl, rfl, rfl⟩
  all_goals exact .inr ⟨_, _, step_straight pen rfl hargs, rfl, rfl⟩

namespace Step

variable {pen pen' : Pen α} {token : Token α} {drawn : Option (Segment α)}

theorem previous_eq (h : pen.Step token pen' drawn) : pen'.previous = some token.command := by
  cases h <;> rfl

theorem length_args (h : pen.Step token pen' drawn) :
    token.args.length = token.command.arity := by
  cases h with
  | line _ _ args _ => exact args
  | _ => rfl

theorem isDrawable (h : pen.Step token pen' drawn) : token.IsDrawable := by
  refine ⟨fun hclose => ?_, h.length_args⟩
  cases h with
  | line _ straight _ _ => rw [hclose] at straight; cases straight
  | _ => cases hclose

/-- A token that draws adds its displacement to the position. -/
theorem position_eq (h : pen.Step token pen' drawn) (draws : token.command.draws = true) :
    pen'.position = pen.position + token.displacement := by
  cases h with
  | move target offset => cases draws
  | _ => rfl

/-- Only a move draws nothing. -/
theorem drawn_eq_none (h : pen.Step token pen' drawn) (draws : token.command.draws = false) :
    drawn = none ∧ token.command = .move ∧ token.args = [pen'.position.x, pen'.position.y] := by
  cases h with
  | move target offset => exact ⟨rfl, rfl, rfl⟩
  | line _ straight _ _ => rw [Command.draws_of_isStraight straight] at draws; cases draws
  | _ => cases draws

end Step

/-- Where all numbers are in range, nothing can go wrong with a token that can be drawn with. -/
theorem exists_step (inRange : ∀ a : α, Scalar.isFinite a = true) (pen : Pen α) {token : Token α}
    (h : token.IsDrawable) : ∃ pen' drawn, pen.Step token pen' drawn := by
  rcases pen.step_of_isDrawable h with ⟨pen', hs⟩ | ⟨pen₁, segment, hs, -⟩
  · exact ⟨pen', none, step_eq_ok_iff.mp hs⟩
  · have hfinite : segment.isFinite = true := by
      cases segment <;> simp [Segment.isFinite, Point.isFinite, inRange]
    exact ⟨_, _, step_eq_ok_iff.mp (hs.trans (draw_eq_ok_iff.mpr ⟨hfinite, rfl, rfl⟩))⟩

/-! ## A list of tokens -/

/-- Apply tokens until one fails: the pen after them and the segments drawn. -/
def follow (pen : Pen α) : List (Token α) → Except PathError (Pen α × List (Segment α))
  | [] => .ok (pen, [])
  | token :: rest => do
    let (pen, drawn) := pen.step token
    let segment ← drawn
    let (pen, segments) ← pen.follow rest
    return (pen, segment.toList ++ segments)

@[simp] theorem follow_nil (pen : Pen α) : pen.follow [] = .ok (pen, []) := rfl

theorem run_eq_map_follow (pen : Pen α) (tokens : List (Token α)) :
    pen.run tokens = (pen.follow tokens).map Prod.snd := by
  induction tokens generalizing pen with
  | nil => rfl
  | cons token rest ih =>
    rw [run, follow]
    rcases pen.step token with ⟨pen', e | drawn⟩
    · rfl
    · change (do let segments ← pen'.run rest; return drawn.toList ++ segments) = _
      rw [ih]
      cases h : pen'.follow rest <;> simp [h, bind, Except.bind, Except.map, pure, Except.pure]

variable {pen pen' : Pen α} {segments : List (Segment α)}

/-- The first token is applied, then the others. -/
theorem follow_cons_eq_ok_iff {token : Token α} {rest : List (Token α)} :
    pen.follow (token :: rest) = .ok (pen', segments) ↔
      ∃ pen₁ drawn more, pen.Step token pen₁ drawn ∧ pen₁.follow rest = .ok (pen', more) ∧
        segments = drawn.toList ++ more := by
  rw [follow]
  constructor
  · intro h
    rcases hs : pen.step token with ⟨pen₁, e | drawn⟩
    · rw [hs] at h
      cases h
    · rw [hs] at h
      obtain ⟨_, hd, h⟩ := bind_eq_ok.mp h
      cases hd
      obtain ⟨⟨pen₂, more⟩, hf, h⟩ := bind_eq_ok.mp h
      cases h
      exact ⟨pen₁, drawn, more, step_eq_ok_iff.mp hs, hf, rfl⟩
  · rintro ⟨pen₁, drawn, more, hs, hf, rfl⟩
    rw [step_eq_ok_iff.mpr hs]
    exact bind_eq_ok.mpr ⟨_, rfl, bind_eq_ok.mpr ⟨_, hf, rfl⟩⟩

/-- What follows two lists follows the first and then, from where the pen is, the second. -/
theorem follow_append_eq_ok_iff {xs ys : List (Token α)} :
    pen.follow (xs ++ ys) = .ok (pen', segments) ↔
      ∃ pen₁ first second, pen.follow xs = .ok (pen₁, first) ∧
        pen₁.follow ys = .ok (pen', second) ∧ segments = first ++ second := by
  induction xs generalizing pen segments with
  | nil =>
    constructor
    · intro h
      exact ⟨pen, [], segments, rfl, h, rfl⟩
    · rintro ⟨pen₁, first, second, h₁, h₂, rfl⟩
      cases h₁
      exact h₂
  | cons token rest ih =>
    rw [List.cons_append, follow_cons_eq_ok_iff]
    constructor
    · rintro ⟨pen₁, drawn, more, hs, hf, rfl⟩
      obtain ⟨pen₂, first, second, h₁, h₂, rfl⟩ := ih.mp hf
      exact ⟨pen₂, drawn.toList ++ first, second, follow_cons_eq_ok_iff.mpr ⟨_, _, _, hs, h₁, rfl⟩,
        h₂, (List.append_assoc ..).symm⟩
    · rintro ⟨pen₂, first, second, h₁, h₂, rfl⟩
      obtain ⟨pen₁, drawn, more, hs, hf, rfl⟩ := follow_cons_eq_ok_iff.mp h₁
      exact ⟨pen₁, drawn, more ++ second, hs, ih.mpr ⟨_, _, _, hf, h₂, rfl⟩,
        List.append_assoc ..⟩

/-- Either the first token fails, or the others do after it. -/
theorem follow_cons_eq_error_iff {token : Token α} {rest : List (Token α)} {e : PathError} :
    pen.follow (token :: rest) = .error e ↔
      (∃ pen₁, pen.step token = (pen₁, .error e)) ∨
        ∃ pen₁ drawn, pen.Step token pen₁ drawn ∧ pen₁.follow rest = .error e := by
  rw [follow]
  constructor
  · intro h
    rcases hs : pen.step token with ⟨pen₁, e' | drawn⟩
    · rw [hs] at h
      cases h
      exact .inl ⟨pen₁, rfl⟩
    · rw [hs] at h
      obtain h | ⟨_, hd, h⟩ := bind_eq_error.mp h
      · cases h
      cases hd
      obtain hf | ⟨_, -, h⟩ := bind_eq_error.mp h
      · exact .inr ⟨pen₁, drawn, step_eq_ok_iff.mp hs, hf⟩
      · cases h
  · rintro (⟨pen₁, hs⟩ | ⟨pen₁, drawn, hs, hf⟩)
    · rw [hs]
      rfl
    · rw [step_eq_ok_iff.mpr hs]
      exact bind_eq_error.mpr (.inr ⟨_, rfl, bind_eq_error.mpr (.inl hf)⟩)

/-- Of two lists either the first fails, or the second does after it. -/
theorem follow_append_eq_error_iff {xs ys : List (Token α)} {e : PathError} :
    pen.follow (xs ++ ys) = .error e ↔
      pen.follow xs = .error e ∨
        ∃ pen₁ first, pen.follow xs = .ok (pen₁, first) ∧ pen₁.follow ys = .error e := by
  induction xs generalizing pen with
  | nil =>
    constructor
    · intro h
      exact .inr ⟨pen, [], rfl, h⟩
    · rintro (h | ⟨pen₁, first, h₁, h₂⟩)
      · cases h
      · cases h₁
        exact h₂
  | cons token rest ih =>
    rw [List.cons_append, follow_cons_eq_error_iff, follow_cons_eq_error_iff]
    constructor
    · rintro (hs | ⟨pen₁, drawn, hs, hf⟩)
      · exact .inl (.inl hs)
      · rcases ih.mp hf with h | ⟨pen₂, first, h₁, h₂⟩
        · exact .inl (.inr ⟨pen₁, drawn, hs, h⟩)
        · exact .inr ⟨pen₂, _, follow_cons_eq_ok_iff.mpr ⟨_, _, _, hs, h₁, rfl⟩, h₂⟩
    · rintro ((hs | ⟨pen₁, drawn, hs, hf⟩) | ⟨pen₂, first, h₁, h₂⟩)
      · exact .inl hs
      · exact .inr ⟨pen₁, drawn, hs, ih.mpr (.inl hf)⟩
      · obtain ⟨pen₁, drawn, more, hs, hf, -⟩ := follow_cons_eq_ok_iff.mp h₁
        exact .inr ⟨pen₁, drawn, hs, ih.mpr (.inr ⟨pen₂, more, hf, h₂⟩)⟩

theorem follow_singleton_eq_ok_iff {token : Token α} :
    pen.follow [token] = .ok (pen', segments) ↔
      ∃ drawn, pen.Step token pen' drawn ∧ segments = drawn.toList := by
  rw [follow_cons_eq_ok_iff]
  constructor
  · rintro ⟨pen₁, drawn, more, hs, hf, rfl⟩
    cases hf
    exact ⟨drawn, hs, List.append_nil _⟩
  · rintro ⟨drawn, hs, rfl⟩
    exact ⟨pen', drawn, [], hs, rfl, (List.append_nil _).symm⟩

/-- The pen knows the command of the last token. -/
theorem previous_of_follow {tokens : List (Token α)}
    (h : initial.follow tokens = .ok (pen, segments)) :
    pen.previous = tokens.getLast?.map Token.command := by
  rcases List.eq_nil_or_concat tokens with rfl | ⟨rest, token, rfl⟩
  · cases h
    rfl
  · rw [List.concat_eq_append] at h ⊢
    obtain ⟨pen₁, first, second, -, h, -⟩ := follow_append_eq_ok_iff.mp h
    obtain ⟨drawn, hs, -⟩ := follow_singleton_eq_ok_iff.mp h
    rw [hs.previous_eq, List.getLast?_concat]
    rfl

end Pen

/-- An outline holds what a fresh pen draws. -/
theorem Outline.ofTokens_eq_ok_iff {tokens : List (Token α)} {outline : Outline α} :
    ofTokens tokens = .ok outline ↔
      ∃ pen, Pen.initial.follow tokens = .ok (pen, outline.segments) := by
  rw [ofTokens, Pen.run_eq_map_follow, map_eq_ok]
  constructor
  · rintro ⟨segments, h, rfl⟩
    obtain ⟨⟨pen, segments⟩, hfollow, rfl⟩ := map_eq_ok.mp h
    exact ⟨pen, hfollow⟩
  · rintro ⟨pen, h⟩
    exact ⟨outline.segments, map_eq_ok.mpr ⟨_, h, rfl⟩, rfl⟩

end PiecewiseGlyph
