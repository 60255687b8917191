import PiecewiseGlyph.Proofs.Shorthand

/-!
# Rescaling

In the rational plane, each axis can be stretched, shrunk or reversed and the origin moved, before a
path is drawn or after.

* `Rescaling` acts on positions by `place` and on displacements by `way`, hence on tokens and
  segments;
* `closeContoursFrom_rescale`: resolving closings commutes with it;
* `Matches` relates a pen to one that draws the rescaled path; `exists_step` and `exists_follow`
  keep it;
* `ofTokens_rescale`: the outline of a rescaled path is the rescaled outline.
-/

namespace PiecewiseGlyph

/-- A factor for each axis, which is not zero, and a shift after that. -/
structure Rescaling where
  factorX : Rat
  factorY : Rat
  shift : Point Rat
  factorX_ne_zero : factorX ≠ 0
  factorY_ne_zero : factorY ≠ 0

namespace Rescaling

variable (r : Rescaling)

/-! ## Points -/

/-- The image of a displacement. -/
def way (p : Point Rat) : Point Rat := ⟨r.factorX * p.x, r.factorY * p.y⟩

/-- The image of a position. -/
def place (p : Point Rat) : Point Rat :=
  ⟨r.factorX * p.x + r.shift.x, r.factorY * p.y + r.shift.y⟩

theorem way_zero : r.way 0 = 0 := by
  simp [way, Point.ext_iff]

theorem way_add (p q : Point Rat) : r.way (p + q) = r.way p + r.way q := by
  simp [way, Point.ext_iff, mul_add]

theorem way_opposite (p : Point Rat) : r.way p.opposite = (r.way p).opposite := by
  simp only [way, Point.opposite, Point.ext_iff, Scalar.zero_rat]
  constructor <;> ring

/-- Only no way at all becomes none. -/
theorem isOrigin_way (p : Point Rat) : (r.way p).isOrigin = p.isOrigin := by
  rw [Bool.eq_iff_iff, Point.isOrigin_iff, Point.isOrigin_iff]
  simp [way, Point.ext_iff, r.factorX_ne_zero, r.factorY_ne_zero]

theorem place_add (p q : Point Rat) : r.place (p + q) = r.place p + r.way q := by
  simp only [place, way, Point.ext_iff, Point.add_x, Point.add_y]
  constructor <;> ring

theorem place_reflect (p center : Point Rat) :
    r.place (p.reflect center) = (r.place p).reflect (r.place center) := by
  simp only [place, Point.reflect, Point.ext_iff, Scalar.ofNat_rat, Nat.cast_ofNat]
  constructor <;> ring

/-! ## Tokens and segments -/

/-- The images of arguments that belong to the two axes in turn. -/
def pairs : List Rat → List Rat
  | x :: y :: rest => r.factorX * x :: r.factorY * y :: pairs rest
  | rest => rest

/-- The images of the arguments of a command. Those of a move are a position, all others are
displacements. -/
def args : Command → List Rat → List Rat
  | .move, [x, y] => [r.factorX * x + r.shift.x, r.factorY * y + r.shift.y]
  | .horizontal, args => args.map (r.factorX * ·)
  | .vertical, args => args.map (r.factorY * ·)
  | _, args => r.pairs args

/-- The image of a token. -/
def token (t : Token Rat) : Token Rat := { t with args := r.args t.command t.args }

/-- The image of a segment. -/
def segment : Segment Rat → Segment Rat
  | .line p offset => .line (r.place p) (r.way offset)
  | .quadratic p q s => .quadratic (r.place p) (r.place q) (r.place s)
  | .cubic p q s t => .cubic (r.place p) (r.place q) (r.place s) (r.place t)

/-- The image of an outline. -/
def outline (o : Outline Rat) : Outline Rat := ⟨o.segments.map r.segment⟩

theorem length_pairs (args : List Rat) : (r.pairs args).length = args.length := by
  fun_induction pairs r args with
  | case1 x y rest ih => simp [ih]
  | case2 => rfl

theorem length_args (command : Command) (args : List Rat) :
    (r.args command args).length = args.length := by
  unfold Rescaling.args
  split
  · rfl
  · exact List.length_map _
  · exact List.length_map _
  · exact r.length_pairs args

/-- A rescaled token leads on by the rescaled way. -/
theorem displacement_token {t : Token Rat} (h : t.args.length = t.command.arity) :
    (r.token t).displacement = r.way t.displacement := by
  obtain ⟨command, args, offset⟩ := t
  cases command
  case move | close => exact r.way_zero.symm
  case horizontal =>
    match args, h with
    | [dx], _ => simp [token, Rescaling.args, Token.displacement, way]
  case vertical =>
    match args, h with
    | [dy], _ => simp [token, Rescaling.args, Token.displacement, way]
  case line | smoothQuadratic =>
    match args, h with
    | [dx, dy], _ => rfl
  case quadratic | smoothCubic =>
    match args, h with
    | [dx₁, dy₁, dx, dy], _ => rfl
  case cubic =>
    match args, h with
    | [dx₁, dy₁, dx₂, dy₂, dx, dy], _ => rfl

/-! ## Closings -/

theorem carry_rescale (way : Point Rat) {t : Token Rat} (h : t.args.length = t.command.arity) :
    carry (r.way way) (r.token t) = r.way (carry way t) := by
  have hcommand : (r.token t).command = t.command := rfl
  rw [carry, carry, hcommand, r.isOrigin_way, r.displacement_token h, ← r.way_add]
  split
  · split
    · rfl
    · exact r.way_zero.symm
  · split <;> rfl

theorem resolve_rescale (way : Point Rat) (t : Token Rat) :
    resolve (r.way way) (r.token t) = (resolve way t).map r.token := by
  have hcommand : (r.token t).command = t.command := rfl
  rw [resolve, resolve, hcommand, r.isOrigin_way]
  split
  · split
    · rfl
    · rw [closingLine, ← r.way_opposite]
      rfl
  · rfl

/-- It does not matter whether closings are resolved before or after. -/
theorem closeContoursFrom_rescale (way : Point Rat) {tokens : List (Token Rat)}
    (h : ∀ t ∈ tokens, t.args.length = t.command.arity) :
    closeContoursFrom (r.way way) (tokens.map r.token) =
      (closeContoursFrom way tokens).map r.token := by
  induction tokens generalizing way with
  | nil => rfl
  | cons t rest ih =>
    obtain ⟨ht, hrest⟩ := List.forall_mem_cons.mp h
    rw [List.map_cons, closeContoursFrom_cons, closeContoursFrom_cons, r.carry_rescale way ht,
      r.resolve_rescale, ih _ hrest, List.map_append]

/-! ## Drawing -/

/-- The second pen draws the rescaled path: it is at the image of the position, and has the image of
a control point as far as the last command draws a curve of this kind. -/
structure Matches (pen pen' : Pen Rat) : Prop where
  position : pen'.position = r.place pen.position
  previous : pen'.previous = pen.previous
  remembered : ∀ kind : Smooth, pen.previous.any kind.includes = true →
    kind.remembered pen' = r.place (kind.remembered pen)

variable {r} {pen pen' : Pen Rat}

/-- Smooth curves get the image of their control point. -/
theorem Matches.reflected (h : r.Matches pen pen') (kind : Smooth) :
    kind.reflected pen' = r.place (kind.reflected pen) := by
  rw [Smooth.reflected, Smooth.reflected, h.previous]
  split
  · rename_i hkind
    rw [h.position, h.remembered kind hkind, ← r.place_reflect]
  · exact h.position

/-- A move takes the pens to a position and its image, wherever they were. -/
theorem exists_step_of_move {t : Token Rat} {pen₁ : Pen Rat} {drawn : Option (Segment Rat)}
    (pen' : Pen Rat) (hs : pen.Step t pen₁ drawn) (hmove : t.command = .move) :
    ∃ pen₁', pen'.Step (r.token t) pen₁' (drawn.map r.segment) ∧ r.Matches pen₁ pen₁' := by
  cases hs with
  | move target offset =>
    refine ⟨_, .move (r.place target) offset, rfl, rfl, fun kind hkind => ?_⟩
    cases kind <;> cases hkind
  | line _ straight => rw [hmove] at straight; cases straight
  | _ => cases hmove

/-- A step on one side is a step on the other. -/
theorem Matches.exists_step {t : Token Rat} {pen₁ : Pen Rat} {drawn : Option (Segment Rat)}
    (h : r.Matches pen pen') (hs : pen.Step t pen₁ drawn) :
    ∃ pen₁', pen'.Step (r.token t) pen₁' (drawn.map r.segment) ∧ r.Matches pen₁ pen₁' := by
  cases hs with
  | move target offset => exact exists_step_of_move pen' (.move target offset) rfl
  | line _ straight args =>
    have hdraw : pen'.Step (r.token t) _ _ :=
      .line (r.token t) straight ((r.length_args _ _).trans args) rfl
    rw [r.displacement_token args, h.position, ← r.place_add] at hdraw
    refine ⟨_, hdraw, rfl, rfl, fun kind hkind => ?_⟩
    change kind.includes t.command = true at hkind
    simp [kind.includes_of_isStraight straight] at hkind
  | quadratic control way offset =>
    have hdraw : pen'.Step _ _ _ := .quadratic (r.way control) (r.way way) offset rfl
    rw [h.position, ← r.place_add, ← r.place_add] at hdraw
    refine ⟨_, hdraw, rfl, rfl, fun kind hkind => ?_⟩
    cases kind
    · rfl
    · cases hkind
  | smoothQuadratic way offset =>
    have hcontrol : pen'.reflectedQuadratic = _ := h.reflected .quadratic
    have hdraw : pen'.Step _ _ _ := .smoothQuadratic (r.way way) offset rfl
    rw [hcontrol, h.position, ← r.place_add] at hdraw
    refine ⟨_, hdraw, rfl, rfl, fun kind hkind => ?_⟩
    cases kind
    · rfl
    · cases hkind
  | cubic control₁ control₂ way offset =>
    have hdraw : pen'.Step _ _ _ := .cubic (r.way control₁) (r.way control₂) (r.way way) offset rfl
    rw [h.position, ← r.place_add, ← r.place_add, ← r.place_add] at hdraw
    refine ⟨_, hdraw, rfl, rfl, fun kind hkind => ?_⟩
    cases kind
    · cases hkind
    · rfl
  | smoothCubic control₂ way offset =>
    have hcontrol : pen'.reflectedCubic = _ := h.reflected .cubic
    have hdraw : pen'.Step _ _ _ := .smoothCubic (r.way control₂) (r.way way) offset rfl
    rw [hcontrol, h.position, ← r.place_add, ← r.place_add] at hdraw
    refine ⟨_, hdraw, rfl, rfl, fun kind hkind => ?_⟩
    cases kind
    · cases hkind
    · rfl

/-- The image of the first token is applied, then those of the others. -/
theorem follow_map_cons {t : Token Rat} {rest : List (Token Rat)} {pen₁ pen₂ : Pen Rat}
    {drawn : Option (Segment Rat)} {more : List (Segment Rat)}
    (hs : pen.Step (r.token t) pen₁ (drawn.map r.segment))
    (hf : pen₁.follow (rest.map r.token) = .ok (pen₂, more.map r.segment)) :
    pen.follow ((t :: rest).map r.token) = .ok (pen₂, (drawn.toList ++ more).map r.segment) := by
  have hsegments : (drawn.toList ++ more).map r.segment =
      (drawn.map r.segment).toList ++ more.map r.segment := by
    cases drawn <;> rfl
  exact Pen.follow_cons_eq_ok_iff.mpr ⟨pen₁, _, _, hs, hf, hsegments⟩

/-- What is followed on one side is followed on the other. -/
theorem Matches.exists_follow {tokens : List (Token Rat)} {pen₁ : Pen Rat}
    {segments : List (Segment Rat)} (h : r.Matches pen pen')
    (hfollow : pen.follow tokens = .ok (pen₁, segments)) :
    ∃ pen₁', pen'.follow (tokens.map r.token) = .ok (pen₁', segments.map r.segment) ∧
      r.Matches pen₁ pen₁' := by
  induction tokens generalizing pen pen' segments with
  | nil =>
    cases hfollow
    exact ⟨pen', rfl, h⟩
  | cons t rest ih =>
    obtain ⟨pen₂, drawn, more, hs, hf, rfl⟩ := Pen.follow_cons_eq_ok_iff.mp hfollow
    obtain ⟨pen₂', hs', h₂⟩ := h.exists_step hs
    obtain ⟨pen₁', hf', h₁⟩ := ih h₂ hf
    exact ⟨pen₁', follow_map_cons hs' hf', h₁⟩

/-- The same pen draws a path and its image, if the path begins with a move. -/
theorem exists_follow_of_move {t : Token Rat} {rest : List (Token Rat)} {pen₁ : Pen Rat}
    {segments : List (Segment Rat)} (hmove : t.command = .move)
    (hfollow : pen.follow (t :: rest) = .ok (pen₁, segments)) :
    ∃ pen₁', pen.follow ((t :: rest).map r.token) = .ok (pen₁', segments.map r.segment) := by
  obtain ⟨pen₂, drawn, more, hs, hf, rfl⟩ := Pen.follow_cons_eq_ok_iff.mp hfollow
  obtain ⟨pen₂', hs', h⟩ := exists_step_of_move (r := r) pen hs hmove
  obtain ⟨pen₁', hf', -⟩ := h.exists_follow hf
  exact ⟨pen₁', follow_map_cons hs' hf'⟩

/-! ## Outlines -/

/-- **The outline of a rescaled path is the rescaled outline.** The path is complete and, if it has
any tokens, begins with a move, so that all else stands behind a move. Then there is an outline,
with and without rescaling, of the same number and kinds of segments. -/
theorem ofTokens_rescale (r : Rescaling) (tokens : List (Token Rat))
    (hargs : ∀ t ∈ tokens, t.args.length = t.command.arity)
    (hmove : ∀ first ∈ tokens.head?, first.command = .move) :
    ∃ o, Outline.ofTokens (closeContours tokens) = .ok o ∧
      Outline.ofTokens (closeContours (tokens.map r.token)) = .ok (r.outline o) := by
  obtain ⟨pen, segments, hfollow⟩ :=
    (exists_follow_closeContours_iff tokens).mpr fun t ht _ => hargs t ht
  refine ⟨⟨segments⟩, Outline.ofTokens_eq_ok_iff.mpr ⟨pen, hfollow⟩, ?_⟩
  have hclose : closeContours (tokens.map r.token) = (closeContours tokens).map r.token := by
    have := r.closeContoursFrom_rescale 0 hargs
    rwa [r.way_zero] at this
  rw [hclose, Outline.ofTokens_eq_ok_iff]
  cases tokens with
  | nil =>
    cases hfollow
    exact ⟨_, rfl⟩
  | cons first rest =>
    have hfirst : first.command = .move := hmove first rfl
    have hkept : resolve 0 first = [first] := by rw [resolve, hfirst, if_neg Command.noConfusion]
    rw [closeContours, Point.origin_eq_zero, closeContoursFrom_cons, hkept] at hfollow ⊢
    exact exists_follow_of_move hfirst hfollow

/-- Upside down, at twice the width, and elsewhere. -/
def upsideDown : Rescaling := ⟨2, -1, ⟨10, 700⟩, by decide, by decide⟩

/-- Two contours with smooth curves, both of which are closed:
`M1 1h2q1 2 3 0t1 1zM0 5s1 1 2 2z`. -/
def smoothContours : List (Token Rat) :=
  [⟨.move, [1, 1], 0⟩, ⟨.horizontal, [2], 4⟩, ⟨.quadratic, [1, 2, 3, 0], 6⟩,
    ⟨.smoothQuadratic, [1, 1], 14⟩, ⟨.close, [], 18⟩, ⟨.move, [0, 5], 19⟩,
    ⟨.smoothCubic, [1, 1, 2, 2], 23⟩, ⟨.close, [], 31⟩]

/-- The way back along `(-6, -1)` becomes one along `(-12, 1)`. -/
theorem ofTokens_rescale_smoothContours :
    (∀ t ∈ smoothContours, t.args.length = t.command.arity) ∧
      (∀ first ∈ smoothContours.head?, first.command = .move) ∧
      ∃ o, Outline.ofTokens (closeContours smoothContours) = .ok o ∧
        Outline.ofTokens (closeContours (smoothContours.map upsideDown.token)) =
          .ok (upsideDown.outline o) ∧
        (upsideDown.outline o).segments[3]? = some (.line ⟨24, 698⟩ ⟨-12, 1⟩) := by
  have hargs : ∀ t ∈ smoothContours, t.args.length = t.command.arity := by decide
  have hmove : ∀ first ∈ smoothContours.head?, first.command = .move := by decide
  obtain ⟨o, ho, himage⟩ := ofTokens_rescale upsideDown smoothContours hargs hmove
  refine ⟨hargs, hmove, o, ho, himage, ?_⟩
  have hback : ((Outline.ofTokens (closeContours smoothContours)).toOption.bind
      (·.segments[3]?)) = some (.line ⟨7, 2⟩ ⟨-6, -1⟩) := by decide +kernel
  rw [ho] at hback
  change o.segments[3]? = _ at hback
  rw [outline, List.getElem?_map, hback]
  decide +kernel

end Rescaling

end PiecewiseGlyph
