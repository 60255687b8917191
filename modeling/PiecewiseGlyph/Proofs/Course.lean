import PiecewiseGlyph.Proofs.Drawing

/-!
# The course of the pen

Where the pen is can be told without drawing: a move sets the position, and a token that draws adds
its displacement. Nothing is used of the addition, so that all of this holds with rounding, too.

* `Token.advance` is what one token does to the position, `positionAfter` what several do from the
  origin; `Pen.position_of_follow` says that the pen is there;
* `Token.Draws` is what a token draws from a position, and `Pen.Step.draws` says that a pen draws
  it;
* `segment_of_token`: the segments of an outline are drawn by the drawing tokens, one by each and in
  order, each from the position before its token to the position after it.
-/

namespace PiecewiseGlyph

variable {α : Type} [Scalar α]

/-! ## Positions -/

/-- Where a token takes a pen. A closing, and a move to no point, leave it where it is. -/
def Token.advance (position : Point α) (token : Token α) : Point α :=
  if token.command.draws then position + token.displacement
  else
    match token.command, token.args with
    | .move, [x, y] => ⟨x, y⟩
    | _, _ => position

/-- Where tokens take a pen that has not moved. -/
def positionAfter (tokens : List (Token α)) : Point α := tokens.foldl Token.advance Point.origin

/-- A token that draws leads on by its displacement. -/
theorem Token.advance_of_draws {token : Token α} (draws : token.command.draws = true)
    (position : Point α) : token.advance position = position + token.displacement :=
  if_pos draws

theorem positionAfter_concat (tokens : List (Token α)) (token : Token α) :
    positionAfter (tokens ++ [token]) = token.advance (positionAfter tokens) :=
  List.foldl_concat ..

namespace Pen

variable {pen pen' : Pen α} {segments : List (Segment α)}

/-- A pen goes where its token takes it. -/
theorem Step.position_eq_advance {token : Token α} {drawn : Option (Segment α)}
    (h : pen.Step token pen' drawn) : pen'.position = token.advance pen.position := by
  by_cases draws : token.command.draws = true
  · rw [h.position_eq draws, Token.advance_of_draws draws]
  · obtain ⟨-, hmove, hargs⟩ := h.drawn_eq_none (by simpa using draws)
    rw [Token.advance, if_neg draws, hmove, hargs]

theorem position_of_follow {tokens : List (Token α)}
    (h : pen.follow tokens = .ok (pen', segments)) :
    pen'.position = tokens.foldl Token.advance pen.position := by
  induction tokens generalizing pen segments with
  | nil =>
    cases h
    rfl
  | cons token rest ih =>
    obtain ⟨pen₁, drawn, more, hs, hf, rfl⟩ := follow_cons_eq_ok_iff.mp h
    rw [List.foldl_cons, ← hs.position_eq_advance, ih hf]

end Pen

/-! ## Segments -/

/-- What a token draws from a position: one segment from there, by the displacement of the token,
and of the kind that its command says. A line keeps the displacement itself. -/
structure Token.Draws (token : Token α) (position : Point α) (segment : Segment α) : Prop where
  start : segment.start = position
  stop : segment.stop = position + token.displacement
  line : token.command.isStraight = true → segment = .line position token.displacement
  quadratic : token.command.isQuadratic = true →
    ∃ control, segment = .quadratic position control segment.stop
  cubic : token.command.isCubic = true →
    ∃ control₁ control₂, segment = .cubic position control₁ control₂ segment.stop

namespace Pen

variable {pen pen' : Pen α} {segments : List (Segment α)}

/-- A token that draws, draws one segment. -/
theorem Step.draws {token : Token α} {drawn : Option (Segment α)} (h : pen.Step token pen' drawn)
    (draws : token.command.draws = true) :
    ∃ segment, drawn = some segment ∧ token.Draws pen.position segment := by
  cases h with
  | move target offset => cases draws
  | line _ straight _ _ =>
    obtain ⟨hquadratic, hcubic⟩ := Command.not_curved_of_isStraight straight
    refine ⟨_, rfl, rfl, rfl, fun _ => rfl, fun h => ?_, fun h => ?_⟩
    · rw [hquadratic] at h
      cases h
    · rw [hcubic] at h
      cases h
  | quadratic | smoothQuadratic => exact ⟨_, rfl, rfl, rfl, nofun, fun _ => ⟨_, rfl⟩, nofun⟩
  | cubic | smoothCubic => exact ⟨_, rfl, rfl, rfl, nofun, nofun, fun _ => ⟨_, _, rfl⟩⟩

/-- There is a segment for each token that draws. -/
theorem length_of_follow {tokens : List (Token α)} (h : pen.follow tokens = .ok (pen', segments)) :
    segments.length = countSegments tokens := by
  induction tokens generalizing pen segments with
  | nil =>
    cases h
    rfl
  | cons token rest ih =>
    obtain ⟨pen₁, drawn, more, hs, hf, rfl⟩ := follow_cons_eq_ok_iff.mp h
    rw [List.length_append, ih hf, countSegments, countSegments, List.countP_cons]
    by_cases draws : token.command.draws = true
    · obtain ⟨segment, rfl, -⟩ := hs.draws draws
      rw [if_pos draws, Nat.add_comm]
      rfl
    · obtain ⟨rfl, -, -⟩ := hs.drawn_eq_none (by simpa using draws)
      rw [if_neg draws, Nat.add_comm]
      rfl

/-- Following tokens to their end, one comes by each that draws. -/
theorem getElem?_of_follow {before after : List (Token α)} {token : Token α}
    (h : pen.follow (before ++ token :: after) = .ok (pen', segments))
    (draws : token.command.draws = true) :
    ∃ segment, segments[countSegments before]? = some segment ∧
      token.Draws (before.foldl Token.advance pen.position) segment := by
  obtain ⟨pen₁, first, second, h₁, h₂, rfl⟩ := follow_append_eq_ok_iff.mp h
  obtain ⟨pen₂, drawn, more, hs, -, rfl⟩ := follow_cons_eq_ok_iff.mp h₂
  obtain ⟨segment, rfl, hdraws⟩ := hs.draws draws
  refine ⟨segment, ?_, position_of_follow h₁ ▸ hdraws⟩
  rw [← length_of_follow h₁, List.getElem?_append_right (Nat.le_refl _), Nat.sub_self]
  rfl

end Pen

/-! ## Outlines -/

namespace Outline

variable {tokens : List (Token α)} {outline : Outline α}

/-- Tokens that neither draw nor move leave the pen where it is. -/
theorem positionAfter_append_of_idle (tokens : List (Token α)) {idle : List (Token α)}
    (h : ∀ token ∈ idle, token.command.draws = false ∧ token.command ≠ .move) :
    positionAfter (tokens ++ idle) = positionAfter tokens := by
  rw [positionAfter, List.foldl_append]
  change idle.foldl Token.advance (positionAfter tokens) = positionAfter tokens
  induction idle with
  | nil => rfl
  | cons token rest ih =>
    obtain ⟨hdraws, hmove⟩ := h token List.mem_cons_self
    have hadvance : token.advance (positionAfter tokens) = positionAfter tokens := by
      rw [Token.advance, hdraws, if_neg Bool.false_ne_true]
      split
      · rename_i hcommand _
        exact absurd hcommand hmove
      · rfl
    rw [List.foldl_cons, hadvance, ih fun t ht => h t (List.mem_cons_of_mem _ ht)]

/-- **The segments are drawn by the tokens**, one by each token that draws, in order. The segment of
a token begins where the tokens before it take the pen, has the kind of the token, and ends where
the token takes the pen. So a segment begins where the one before it ends, unless there is a move
between their tokens. -/
theorem segment_of_token (h : ofTokens tokens = .ok outline) :
    outline.size = countSegments tokens ∧
      (∀ before token after, tokens = before ++ token :: after → token.command.draws = true →
        ∃ segment, outline.segments[countSegments before]? = some segment ∧
          token.Draws (positionAfter before) segment ∧
          segment.stop = positionAfter (before ++ [token])) ∧
      ∀ before first between second after,
        tokens = before ++ first :: (between ++ second :: after) →
        first.command.draws = true → second.command.draws = true →
        (∀ token ∈ between, token.command.draws = false ∧ token.command ≠ .move) →
        ∃ one next, outline.segments[countSegments before]? = some one ∧
          outline.segments[countSegments before + 1]? = some next ∧ next.start = one.stop := by
  obtain ⟨pen, hfollow⟩ := ofTokens_eq_ok_iff.mp h
  have hsegment : ∀ before token after, tokens = before ++ token :: after →
      token.command.draws = true →
      ∃ segment, outline.segments[countSegments before]? = some segment ∧
        token.Draws (positionAfter before) segment ∧
        segment.stop = positionAfter (before ++ [token]) := by
    rintro before token after rfl draws
    obtain ⟨segment, hget, hdraws⟩ := Pen.getElem?_of_follow hfollow draws
    refine ⟨segment, hget, hdraws, ?_⟩
    rw [positionAfter_concat, Token.advance_of_draws draws]
    exact hdraws.stop
  refine ⟨Pen.length_of_follow hfollow, hsegment, ?_⟩
  rintro before first between second after rfl hfirst hsecond hidle
  obtain ⟨one, hone, -, hstop⟩ := hsegment before first _ rfl hfirst
  obtain ⟨next, hnext, hdraws, -⟩ := hsegment (before ++ first :: between) second after
    (by rw [List.append_assoc, List.cons_append]) hsecond
  have hcount : countSegments (before ++ first :: between) = countSegments before + 1 := by
    have hbetween : between.countP (·.command.draws) = 0 :=
      List.countP_eq_zero.mpr fun token htoken => by rw [(hidle token htoken).1]; decide
    rw [countSegments, List.countP_append, List.countP_cons, hbetween, if_pos hfirst]
    rfl
  refine ⟨one, next, hone, hcount ▸ hnext, ?_⟩
  rw [hdraws.start, hstop, List.append_cons, positionAfter_append_of_idle _ hidle]

/-- Tokens of each kind of segment, with two contours, and sums that are rounded. -/
def roundedCourse : List (Token Float) :=
  [⟨.move, [0.1, 0], 0⟩, ⟨.horizontal, [0.2], 4⟩, ⟨.smoothQuadratic, [1, 1], 8⟩,
    ⟨.move, [5, 5], 12⟩, ⟨.cubic, [1, 0, 2, 1, 0.1, 0.7], 16⟩]

/-- The second segment begins where `0.1 + 0.2` is. -/
theorem segment_of_token_roundedCourse :
    ∃ outline, ofTokens roundedCourse = .ok outline ∧ outline.size = 3 ∧
      ∃ one next, outline.segments[0]? = some one ∧ outline.segments[1]? = some next ∧
        next.start = one.stop ∧ next.start = ⟨0.30000000000000004, 0⟩ := by
  have hsome : ((ofTokens roundedCourse).toOption).isSome = true := by decide +kernel
  cases houtline : ofTokens roundedCourse with
  | error e => rw [houtline] at hsome; cases hsome
  | ok outline =>
    obtain ⟨hsize, hsegment, hnext⟩ := segment_of_token houtline
    obtain ⟨one, next, hone, hnext, hstart⟩ := hnext (roundedCourse.take 1) _ [] _
      (roundedCourse.drop 3) rfl rfl rfl nofun
    obtain ⟨segment, hsegment, hdraws, -⟩ :=
      hsegment (roundedCourse.take 2) _ (roundedCourse.drop 3) rfl rfl
    obtain rfl := Option.some.inj (hsegment.symm.trans hnext)
    refine ⟨outline, rfl, hsize, one, segment, hone, hnext, hstart, ?_⟩
    rw [hdraws.start]
    decide +kernel

end Outline

end PiecewiseGlyph
