import PiecewiseGlyph.Proofs.Closing

/-!
# The control points of smooth curves

A smooth curve leaves its first control point to the curve before it. Which token counts as the one
before it is settled after closings are resolved, so that a closing which is left out does not
count.

* `Smooth` is the kind of a smooth curve, quadratic or cubic; what follows is said of both at once;
* `Smooth.Rule` is the rule by which a control point follows from the last token and from what has
  been drawn;
* `Smooth.lastControl_of_follow`: the pen remembers the control point of the last segment;
* `Smooth.rule_of_follow`: a smooth curve follows the rule for the last token that is kept;
* `Smooth.rule_of_parsePath`: it follows the rule for the last token as written unless closings that
  are left out part it from a curve of its kind whose control point is elsewhere than the pen.
-/

namespace PiecewiseGlyph

/-- The kinds of smooth curves. -/
inductive Smooth
  | quadratic
  | cubic

namespace Smooth

/-- The command of smooth curves of a kind. -/
def command : Smooth → Command
  | quadratic => .smoothQuadratic
  | cubic => .smoothCubic

/-- Does a command draw curves of the kind, smooth or not? -/
def includes : Smooth → Command → Bool
  | quadratic => Command.isQuadratic
  | cubic => Command.isCubic

/-- A straight line is no curve of either kind. -/
theorem includes_of_isStraight (kind : Smooth) {c : Command} (h : c.isStraight = true) :
    kind.includes c = false := by
  obtain ⟨hquadratic, hcubic⟩ := Command.not_curved_of_isStraight h
  cases kind
  · exact hquadratic
  · exact hcubic

section

variable {α : Type}

/-- The first control point of a curve of the kind. -/
def firstControl? : Smooth → Segment α → Option (Point α)
  | quadratic, .quadratic _ q _ => some q
  | cubic, .cubic _ q _ _ => some q
  | _, _ => none

/-- The last control point of a curve of the kind. -/
def lastControl? : Smooth → Segment α → Option (Point α)
  | quadratic, .quadratic _ q _ => some q
  | cubic, .cubic _ _ r _ => some r
  | _, _ => none

/-- The control point that a pen remembers. -/
def remembered : Smooth → Pen α → Point α
  | quadratic, pen => pen.quadraticControl
  | cubic, pen => pen.cubicControl

/-- Is this a token that draws a curve of the kind? -/
def isContinuedBy (kind : Smooth) (last : Option (Token α)) : Bool :=
  last.any fun token => kind.includes token.command

/-- Is this a closing? -/
def isClosing (last : Option (Token α)) : Bool := last.any fun token => token.command = .close

/-- A closing draws no curve. -/
theorem isContinuedBy_of_isClosing (kind : Smooth) {last : Option (Token α)}
    (h : isClosing last = true) : kind.isContinuedBy last = false := by
  obtain ⟨token, rfl, hclose⟩ := (Option.any_eq_true _ _).mp h
  change kind.includes token.command = false
  rw [of_decide_eq_true hclose]
  cases kind <;> rfl

variable [Scalar α]

/-- The control point that a pen gives to a smooth curve. -/
def reflected (kind : Smooth) (pen : Pen α) : Point α :=
  if pen.previous.any kind.includes then (kind.remembered pen).reflect pen.position
  else pen.position

/-- The rule of control points: after a token that draws a curve of the kind, the control point of
the last segment is reflected in the position; otherwise the control point is the position. -/
def Rule (kind : Smooth) (last : Option (Token α)) (drawn : List (Segment α))
    (position control : Point α) : Prop :=
  if kind.isContinuedBy last then
    ∃ q, drawn.getLast?.bind kind.lastControl? = some q ∧ control = q.reflect position
  else control = position

/-! ## What the pen remembers -/

/-- A smooth curve is drawn from the position with the control point that the pen gives it. -/
theorem drawn_of_step {kind : Smooth} {pen pen' : Pen α} {token : Token α}
    {drawn : Option (Segment α)} (h : pen.Step token pen' drawn)
    (hsmooth : token.command = kind.command) :
    ∃ segment, drawn = some segment ∧ segment.start = pen.position ∧
      kind.firstControl? segment = some (kind.reflected pen) := by
  cases kind <;> cases h
  case quadratic.smoothQuadratic => exact ⟨_, rfl, rfl, rfl⟩
  case cubic.smoothCubic => exact ⟨_, rfl, rfl, rfl⟩
  case quadratic.line straight _ _ => rw [hsmooth] at straight; cases straight
  case cubic.line straight _ _ => rw [hsmooth] at straight; cases straight
  all_goals cases hsmooth

/-- A curve leaves its last control point with the pen. -/
theorem lastControl_of_step {kind : Smooth} {pen pen' : Pen α} {token : Token α}
    {drawn : Option (Segment α)} (h : pen.Step token pen' drawn)
    (hkind : kind.includes token.command = true) :
    ∃ segment, drawn = some segment ∧ kind.lastControl? segment = some (kind.remembered pen') := by
  cases kind <;> cases h
  case quadratic.quadratic => exact ⟨_, rfl, rfl⟩
  case quadratic.smoothQuadratic => exact ⟨_, rfl, rfl⟩
  case cubic.cubic => exact ⟨_, rfl, rfl⟩
  case cubic.smoothCubic => exact ⟨_, rfl, rfl⟩
  case quadratic.line straight _ _ => simp [includes_of_isStraight _ straight] at hkind
  case cubic.line straight _ _ => simp [includes_of_isStraight _ straight] at hkind
  all_goals cases hkind

/-- The pen remembers the control point of the last segment, if the last token drew a curve. -/
theorem lastControl_of_follow {kind : Smooth} {tokens : List (Token α)} {pen : Pen α}
    {segments : List (Segment α)} (h : Pen.initial.follow tokens = .ok (pen, segments))
    (hlast : kind.isContinuedBy tokens.getLast? = true) :
    segments.getLast?.bind kind.lastControl? = some (kind.remembered pen) := by
  rcases List.eq_nil_or_concat tokens with rfl | ⟨rest, token, rfl⟩
  · cases hlast
  · rw [List.concat_eq_append] at h hlast
    rw [List.getLast?_concat] at hlast
    obtain ⟨pen₁, first, second, -, h₂, rfl⟩ := Pen.follow_append_eq_ok_iff.mp h
    obtain ⟨drawn, hs, rfl⟩ := Pen.follow_singleton_eq_ok_iff.mp h₂
    obtain ⟨segment, rfl, hcontrol⟩ := lastControl_of_step hs hlast
    rw [Option.toList_some, List.getLast?_concat]
    exact hcontrol

/-- The control point that the pen gives follows the rule. -/
theorem rule_of_follow (kind : Smooth) {tokens : List (Token α)} {pen : Pen α}
    {segments : List (Segment α)} (h : Pen.initial.follow tokens = .ok (pen, segments)) :
    kind.Rule tokens.getLast? segments pen.position (kind.reflected pen) := by
  have hprevious : pen.previous.any kind.includes = kind.isContinuedBy tokens.getLast? := by
    rw [Pen.previous_of_follow h, Option.any_map]
    rfl
  unfold Rule reflected
  rw [hprevious]
  split
  · rename_i hlast
    exact ⟨_, lastControl_of_follow h hlast, rfl⟩
  · rfl

/-! ## As kept and as written -/

/-- Only closings are left out, so another last token stays the last. -/
theorem getLast?_closeContours {tokens : List (Token α)} (h : isClosing tokens.getLast? = false) :
    (closeContours tokens).getLast? = tokens.getLast? := by
  rcases List.eq_nil_or_concat tokens with rfl | ⟨rest, token, rfl⟩
  · rfl
  · rw [List.concat_eq_append, List.getLast?_concat] at h
    have hclose : token.command ≠ .close := by simpa [isClosing] using h
    rw [List.concat_eq_append, closeContours_concat, resolve, if_neg hclose, List.getLast?_concat,
      List.getLast?_concat]

/-- A smooth curve is drawn after what the tokens before it draw. -/
theorem segments_of_ofTokens {kind : Smooth} {before after : List (Token α)} {token : Token α}
    {outline : Outline α} (hsmooth : token.command = kind.command)
    (h : Outline.ofTokens (closeContours (before ++ token :: after)) = .ok outline) :
    ∃ pen drawn segment more, Pen.initial.follow (closeContours before) = .ok (pen, drawn) ∧
      outline.segments = drawn ++ segment :: more ∧ segment.start = pen.position ∧
      kind.firstControl? segment = some (kind.reflected pen) := by
  have hclose : token.command ≠ .close := by
    rw [hsmooth]
    cases kind <;> decide
  obtain ⟨pen', hfollow⟩ := Outline.ofTokens_eq_ok_iff.mp h
  obtain ⟨all⟩ := outline
  rw [closeContours, closeContoursFrom_append, closeContoursFrom_cons, resolve, if_neg hclose]
    at hfollow
  obtain ⟨pen, drawn, rest, h₁, h₂, rfl⟩ := Pen.follow_append_eq_ok_iff.mp hfollow
  obtain ⟨pen₁, one, more, hs, -, rfl⟩ := Pen.follow_cons_eq_ok_iff.mp h₂
  obtain ⟨segment, rfl, hstart, hcontrol⟩ := drawn_of_step hs hsmooth
  exact ⟨pen, drawn, segment, more, h₁, rfl, hstart, hcontrol⟩

end

/-- The rule for the last token as written holds along with that for the last token kept, unless a
closing that was left out hides a curve of the kind whose control point is elsewhere. -/
theorem rule_written_iff {kind : Smooth} {before : List (Token Rat)} {pen : Pen Rat}
    {drawn : List (Segment Rat)}
    (h : Pen.initial.follow (closeContours before) = .ok (pen, drawn)) :
    kind.Rule before.getLast? drawn pen.position (kind.reflected pen) ↔
      (isClosing before.getLast? = true →
        kind.isContinuedBy (closeContours before).getLast? = true →
        drawn.getLast?.bind kind.lastControl? = some pen.position) := by
  have hkept := rule_of_follow kind h
  by_cases hclosing : isClosing before.getLast? = true
  · rw [Rule, isContinuedBy_of_isClosing kind hclosing, if_neg Bool.false_ne_true]
    by_cases hlast : kind.isContinuedBy (closeContours before).getLast? = true
    · -- the hidden curve's control point is its own image only if the pen is there
      rw [Rule, if_pos hlast] at hkept
      obtain ⟨q, hq, hcontrol⟩ := hkept
      rw [hcontrol, Point.reflect_eq_center_iff, hq]
      exact ⟨fun h _ _ => congrArg some h, fun h => Option.some.inj (h hclosing hlast)⟩
    · rw [Rule, if_neg hlast] at hkept
      exact ⟨fun _ _ h => absurd h hlast, fun _ => hkept⟩
  · rw [getLast?_closeContours (by simpa using hclosing)] at hkept
    exact ⟨fun _ h => absurd h hclosing, fun _ => hkept⟩

/-- **The control points of smooth curves** in path data. A smooth curve is drawn from the position
of the pen, and its control point follows the rule for the last token that is kept when closings are
resolved. That is the rule for the last token as written, unless that token is a closing, the last
token kept draws a curve of the kind, and the control point of this curve is not the position. -/
theorem rule_of_parsePath (kind : Smooth) {data : String} {tokens before after : List (Token Rat)}
    {token : Token Rat} {outline : Outline Rat} (hread : tokenize data = .ok tokens)
    (hdraw : (parsePath data).bind Outline.ofTokens = .ok outline)
    (hsplit : tokens = before ++ token :: after) (hsmooth : token.command = kind.command) :
    ∃ pen drawn segment more control,
      Pen.initial.follow (closeContours before) = .ok (pen, drawn) ∧
        outline.segments = drawn ++ segment :: more ∧ segment.start = pen.position ∧
        kind.firstControl? segment = some control ∧
        kind.Rule (closeContours before).getLast? drawn pen.position control ∧
        (kind.Rule before.getLast? drawn pen.position control ↔
          (isClosing before.getLast? = true →
            kind.isContinuedBy (closeContours before).getLast? = true →
            drawn.getLast?.bind kind.lastControl? = some pen.position)) := by
  rw [parsePath, hread, hsplit] at hdraw
  obtain ⟨pen, drawn, segment, more, h, hsegments, hstart, hcontrol⟩ :=
    segments_of_ofTokens hsmooth hdraw
  exact ⟨pen, drawn, segment, more, _, h, hsegments, hstart, hcontrol, rule_of_follow kind h,
    rule_written_iff h⟩

/-! A smooth curve behind a closing that is left out: `M0 0q5 10 0 0zt5 5`. -/

/-- The tokens before the smooth curve. -/
def hiddenCurve : List (Token Rat) :=
  [⟨.move, [0, 0], 0⟩, ⟨.quadratic, [5, 10, 0, 0], 4⟩, ⟨.close, [], 13⟩]

theorem tokenize_hiddenCurve :
    tokenize "M0 0q5 10 0 0zt5 5" = .ok (hiddenCurve ++ ⟨.smoothQuadratic, [5, 5], 14⟩ :: []) := by
  decide +kernel

theorem outline_hiddenCurve :
    (parsePath "M0 0q5 10 0 0zt5 5").bind Outline.ofTokens =
      .ok (⟨[.quadratic ⟨0, 0⟩ ⟨5, 10⟩ ⟨0, 0⟩, .quadratic ⟨0, 0⟩ ⟨-5, -10⟩ ⟨5, 5⟩]⟩ :
        Outline Rat) := by
  decide +kernel

theorem follow_hiddenCurve :
    Pen.initial.follow (closeContours hiddenCurve) =
      .ok (⟨⟨0, 0⟩, some .quadratic, ⟨5, 10⟩, Point.origin⟩,
        [.quadratic ⟨0, 0⟩ ⟨5, 10⟩ ⟨0, 0⟩]) := by
  decide +kernel

theorem rule_of_parsePath_hiddenCurve :
    ∃ pen drawn control, Pen.initial.follow (closeContours hiddenCurve) = .ok (pen, drawn) ∧
      quadratic.Rule (closeContours hiddenCurve).getLast? drawn pen.position control ∧
      ¬ quadratic.Rule hiddenCurve.getLast? drawn pen.position control := by
  obtain ⟨pen, drawn, segment, more, control, h, -, -, -, hkept, hwritten⟩ :=
    rule_of_parsePath quadratic tokenize_hiddenCurve outline_hiddenCurve rfl rfl
  refine ⟨pen, drawn, control, h, hkept, fun hrule => ?_⟩
  obtain ⟨rfl, rfl⟩ := Prod.mk.inj (Except.ok.inj (h.symm.trans follow_hiddenCurve))
  exact absurd (hwritten.mp hrule rfl (by decide +kernel)) (by decide +kernel)

/-- The rule for the last token as written fails: the second curve of `M0 0q5 10 0 0zt5 5` has the
control point `(-5, -10)`, though a closing stands before it. -/
theorem not_rule_written :
    ¬ ∀ (kind : Smooth) (data : String) (tokens before after : List (Token Rat))
      (token : Token Rat) (outline : Outline Rat), tokenize data = .ok tokens →
      (parsePath data).bind Outline.ofTokens = .ok outline →
      tokens = before ++ token :: after → token.command = kind.command →
      ∃ pen drawn segment more control,
        Pen.initial.follow (closeContours before) = .ok (pen, drawn) ∧
          outline.segments = drawn ++ segment :: more ∧
          kind.firstControl? segment = some control ∧
          kind.Rule before.getLast? drawn pen.position control := by
  intro h
  obtain ⟨pen, drawn, segment, more, control, hfollow, hsegments, hcontrol, hrule⟩ :=
    h quadratic _ _ _ _ _ _ tokenize_hiddenCurve outline_hiddenCurve rfl rfl
  obtain ⟨rfl, rfl⟩ := Prod.mk.inj (Except.ok.inj (hfollow.symm.trans follow_hiddenCurve))
  obtain ⟨rfl, -⟩ := List.cons.inj (List.cons.inj hsegments).2
  obtain rfl := Option.some.inj hcontrol
  exact absurd (show (⟨-5, -10⟩ : Point Rat) = ⟨0, 0⟩ from hrule) (by decide +kernel)

end Smooth

end PiecewiseGlyph
