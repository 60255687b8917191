import PiecewiseGlyph.Glyph
import PiecewiseGlyph.Proofs.Closing
import PiecewiseGlyph.Proofs.Course
import PiecewiseGlyph.Proofs.Grammar

/-!
# Staying in range

Once path data is read and its closings are resolved, nothing but a coordinate out of range can keep
it from being drawn. To say so, we draw with the same numbers and operations, but without asking
whether a number is in range.

* `Boundless` are these numbers, and `Outline.sketch` draws with them;
* `Pen.step_boundless_iff` and `Pen.follow_boundless_iff`: a pen draws what it sketches, as long as
  the segments stay in range;
* `Pen.error_of_follow`: a token that can be drawn with fails only if it draws out of range;
* `isDrawable_of_parsePath`: every token of path data can be drawn with;
* `ofTokens_of_parsePath`: hence path data have a formula exactly if their sketch stays in range,
  and no other fault is found when the tokens are drawn.
-/

namespace PiecewiseGlyph

/-! ## Drawing without bounds -/

/-- The numbers of a type, each of which counts as being in range. -/
def Boundless (α : Type) : Type := α

instance {α : Type} [base : Scalar α] : Scalar (Boundless α) :=
  { base with isFinite := fun _ => true }

variable {α : Type} [Scalar α]

/-- Draw tokens with a fresh pen, whether their segments stay in range or not. -/
def Outline.sketch (tokens : List (Token α)) : Except PathError (Outline α) :=
  Outline.ofTokens (α := Boundless α) tokens

/-- Do all points and displacements of an outline stay in range? -/
def Outline.IsFinite (outline : Outline α) : Prop := ∀ s ∈ outline.segments, s.isFinite = true

/-- The fault of a token whose segment leaves the range. -/
def Token.overflow (token : Token α) : PathError :=
  ⟨token.command.letter, token.offset, .coordinateOverflow⟩

namespace Pen

/-- A step is a step without bounds to a segment that stays in range. -/
theorem step_boundless_iff {pen pen' : Pen α} {token : Token α} {drawn : Option (Segment α)} :
    pen.Step token pen' drawn ↔
      Step (α := Boundless α) pen token pen' drawn ∧ ∀ s ∈ drawn, s.isFinite = true := by
  constructor
  · intro h
    refine ⟨?_, ?_⟩
    · cases h with
      | move target offset => exact Step.move (α := Boundless α) target offset
      | line _ straight args => exact Step.line (α := Boundless α) _ straight args (by rfl)
      | quadratic control way offset =>
        exact Step.quadratic (α := Boundless α) control way offset (by rfl)
      | smoothQuadratic way offset =>
        exact Step.smoothQuadratic (α := Boundless α) way offset (by rfl)
      | cubic control₁ control₂ way offset =>
        exact Step.cubic (α := Boundless α) control₁ control₂ way offset (by rfl)
      | smoothCubic control₂ way offset =>
        exact Step.smoothCubic (α := Boundless α) control₂ way offset (by rfl)
    · intro s hs
      cases h with
      | move => cases hs
      | _ => cases hs; assumption
  · rintro ⟨h, finite⟩
    cases h with
    | move target offset => exact .move target offset
    | line _ straight args => exact .line _ straight args (finite _ (by rfl))
    | quadratic control way offset => exact .quadratic control way offset (finite _ (by rfl))
    | smoothQuadratic way offset => exact .smoothQuadratic way offset (finite _ (by rfl))
    | cubic control₁ control₂ way offset =>
      exact .cubic control₁ control₂ way offset (finite _ (by rfl))
    | smoothCubic control₂ way offset => exact .smoothCubic control₂ way offset (finite _ (by rfl))

/-- Following tokens is following them without bounds to segments that stay in range. -/
theorem follow_boundless_iff {pen pen' : Pen α} {tokens : List (Token α)}
    {segments : List (Segment α)} :
    pen.follow tokens = .ok (pen', segments) ↔
      follow (α := Boundless α) pen tokens = .ok (pen', segments) ∧
        ∀ s ∈ segments, s.isFinite = true := by
  induction tokens generalizing pen segments with
  | nil =>
    constructor
    · intro h
      cases h
      exact ⟨rfl, nofun⟩
    · rintro ⟨h, -⟩
      cases h
      rfl
  | cons token rest ih =>
    constructor
    · intro h
      obtain ⟨pen₁, drawn, more, hs, hf, rfl⟩ := follow_cons_eq_ok_iff.mp h
      obtain ⟨hs, hdrawn⟩ := step_boundless_iff.mp hs
      obtain ⟨hf, hmore⟩ := ih.mp hf
      refine ⟨follow_cons_eq_ok_iff.mpr ⟨pen₁, drawn, more, hs, hf, rfl⟩, fun s hsegment => ?_⟩
      rcases List.mem_append.mp hsegment with hsegment | hsegment
      · exact hdrawn s (Option.mem_toList.mp hsegment)
      · exact hmore s hsegment
    · rintro ⟨h, hfinite⟩
      obtain ⟨pen₁, drawn, more, hs, hf, rfl⟩ := follow_cons_eq_ok_iff.mp h
      have hs := step_boundless_iff.mpr ⟨hs, fun s hsegment =>
        hfinite s (List.mem_append_left _ (Option.mem_toList.mpr hsegment))⟩
      have hf := ih.mpr ⟨hf, fun s hsegment => hfinite s (List.mem_append_right _ hsegment)⟩
      exact follow_cons_eq_ok_iff.mpr ⟨pen₁, drawn, more, hs, hf, rfl⟩

/-- Where all numbers are in range, tokens that can be drawn with are drawn. -/
theorem exists_follow (inRange : ∀ a : α, Scalar.isFinite a = true) (pen : Pen α)
    {tokens : List (Token α)} (h : ∀ token ∈ tokens, token.IsDrawable) :
    ∃ pen' segments, pen.follow tokens = .ok (pen', segments) := by
  induction tokens generalizing pen with
  | nil => exact ⟨pen, [], rfl⟩
  | cons token rest ih =>
    obtain ⟨pen₁, drawn, hs⟩ := exists_step inRange pen (h token List.mem_cons_self)
    obtain ⟨pen', more, hf⟩ := ih pen₁ fun t ht => h t (List.mem_cons_of_mem _ ht)
    exact ⟨_, _, follow_cons_eq_ok_iff.mpr ⟨pen₁, drawn, more, hs, hf, rfl⟩⟩

/-! ## Faults of drawing -/

/-- A token that is not complete, or a closing, cannot be followed. -/
theorem isDrawable_of_follow {pen pen' : Pen α} {tokens : List (Token α)}
    {segments : List (Segment α)} (h : pen.follow tokens = .ok (pen', segments)) :
    ∀ token ∈ tokens, token.IsDrawable := by
  induction tokens generalizing pen segments with
  | nil => exact nofun
  | cons token rest ih =>
    obtain ⟨pen₁, drawn, more, hs, hf, -⟩ := follow_cons_eq_ok_iff.mp h
    exact List.forall_mem_cons.mpr ⟨hs.isDrawable, ih hf⟩

theorem error_of_draw {pen pen' : Pen α} {token : Token α} {segment : Segment α} {e : PathError}
    (h : pen.draw token segment = (pen', .error e)) : e = token.overflow := by
  unfold draw at h
  split at h
  · cases h
  · cases h
    rfl

/-- Only range can fail a token that can be drawn with, and a move has none. -/
theorem error_of_step {pen pen' : Pen α} {token : Token α} {e : PathError}
    (hdrawable : token.IsDrawable) (h : pen.step token = (pen', .error e)) :
    token.command.draws = true ∧ e = token.overflow := by
  rcases pen.step_of_isDrawable hdrawable with ⟨pen₁, hs⟩ | ⟨pen₁, segment, hs, -⟩
  · rw [hs] at h
    cases h
  · refine ⟨?_, error_of_draw (hs.symm.trans h)⟩
    obtain ⟨command, args, offset⟩ := token
    obtain ⟨hclose, hargs⟩ := hdrawable
    cases command with
    | close => exact absurd rfl hclose
    | move =>
      obtain ⟨x, y, rfl⟩ := List.length_eq_two.mp hargs
      cases h
    | _ => rfl

/-- Only range can fail tokens that can be drawn with, at one of those that draw. -/
theorem error_of_follow {pen : Pen α} {tokens : List (Token α)} {e : PathError}
    (hdrawable : ∀ token ∈ tokens, token.IsDrawable) (h : pen.follow tokens = .error e) :
    ∃ token ∈ tokens, token.command.draws = true ∧ e = token.overflow := by
  induction tokens generalizing pen with
  | nil => cases h
  | cons token rest ih =>
    obtain ⟨htoken, hrest⟩ := List.forall_mem_cons.mp hdrawable
    rcases follow_cons_eq_error_iff.mp h with ⟨pen₁, hs⟩ | ⟨pen₁, drawn, -, hf⟩
    · exact ⟨token, List.mem_cons_self, error_of_step htoken hs⟩
    · obtain ⟨t, ht, he⟩ := ih hrest hf
      exact ⟨t, List.mem_cons_of_mem token ht, he⟩

end Pen

namespace Outline

variable {tokens : List (Token α)}

/-- An outline is a sketch that stays in range. -/
theorem ofTokens_eq_ok_iff_sketch {outline : Outline α} :
    ofTokens tokens = .ok outline ↔ sketch tokens = .ok outline ∧ outline.IsFinite := by
  have hsketch : sketch tokens = .ok outline ↔
      ∃ pen, Pen.follow (α := Boundless α) Pen.initial tokens = .ok (pen, outline.segments) :=
    ofTokens_eq_ok_iff (α := Boundless α)
  rw [ofTokens_eq_ok_iff, hsketch]
  constructor
  · rintro ⟨pen, h⟩
    obtain ⟨h, hfinite⟩ := Pen.follow_boundless_iff.mp h
    exact ⟨⟨pen, h⟩, hfinite⟩
  · rintro ⟨⟨pen, h⟩, hfinite⟩
    exact ⟨pen, Pen.follow_boundless_iff.mpr ⟨h, hfinite⟩⟩

/-- Tokens that can be drawn with have a sketch. -/
theorem exists_sketch (h : ∀ token ∈ tokens, token.IsDrawable) :
    ∃ outline, sketch tokens = .ok outline := by
  obtain ⟨pen, segments, hfollow⟩ :=
    Pen.exists_follow (α := Boundless α) (fun _ => rfl) Pen.initial h
  exact ⟨⟨segments⟩, (ofTokens_eq_ok_iff (α := Boundless α)).mpr ⟨pen, hfollow⟩⟩

theorem isDrawable_of_ofTokens {outline : Outline α} (h : ofTokens tokens = .ok outline) :
    ∀ token ∈ tokens, token.IsDrawable := by
  obtain ⟨pen, hfollow⟩ := ofTokens_eq_ok_iff.mp h
  exact Pen.isDrawable_of_follow hfollow

theorem ofTokens_eq_error_iff {e : PathError} :
    ofTokens tokens = .error e ↔ Pen.initial.follow tokens = .error e := by
  rw [ofTokens, Pen.run_eq_map_follow, map_eq_error, map_eq_error]

theorem cause_of_ofTokens (h : ∀ token ∈ tokens, token.IsDrawable) {e : PathError}
    (he : ofTokens tokens = .error e) : e.cause = .coordinateOverflow := by
  obtain ⟨token, -, -, rfl⟩ := Pen.error_of_follow h (ofTokens_eq_error_iff.mp he)
  rfl

end Outline

/-! ## Path data -/

/-- What is read from path data can be drawn with. -/
theorem isDrawable_of_parsePath {data : String} {tokens : List (Token α)}
    (h : parsePath data = .ok tokens) : ∀ token ∈ tokens, token.IsDrawable := by
  obtain ⟨written, hwritten, rfl⟩ := map_eq_ok.mp h
  obtain ⟨lead, phrases, -, -, hsentence⟩ := tokenize_eq_ok_iff_sentence.mp hwritten
  exact isDrawable_of_mem_closeContoursFrom
    (fun token htoken _ => (hsentence.length_args htoken).1) Point.origin

/-- **Only range can fail** path data that is read. No closing is left among its tokens, each has
the arguments that its command takes, and there is a sketch. If the sketch stays in range, it is the
outline, and every label and style gives its formula; if not, the fault is an overflow. Tokens that
come from elsewhere, with a closing or with a wrong number of arguments, are no outline. -/
theorem ofTokens_of_parsePath :
    (∀ (data : String) (tokens : List (Token Float)), parsePath data = .ok tokens →
      (∀ token ∈ tokens,
        token.command ≠ .close ∧ token.args.length = token.command.arity) ∧
      (∀ e, Outline.ofTokens tokens = .error e → e.cause = .coordinateOverflow) ∧
      ∃ sketched, Outline.sketch tokens = .ok sketched ∧
        (Outline.ofTokens tokens = .ok sketched ↔ sketched.IsFinite) ∧
        ∀ (label : String) (style : Style Float), sketched.IsFinite →
          Formula.ofPathData label data style = .ok (Formula.ofOutline label sketched style)) ∧
      ∀ (tokens : List (Token Float)) (token : Token Float), token ∈ tokens →
        token.command = .close ∨ token.args.length ≠ token.command.arity →
        ∃ e, Outline.ofTokens tokens = .error e := by
  refine ⟨fun data tokens hread => ?_, fun tokens token htoken hfaulty => ?_⟩
  · have hdrawable := isDrawable_of_parsePath hread
    obtain ⟨sketched, hsketch⟩ := Outline.exists_sketch hdrawable
    have hdraw : Outline.ofTokens tokens = .ok sketched ↔ sketched.IsFinite := by
      rw [Outline.ofTokens_eq_ok_iff_sketch, and_iff_right hsketch]
    refine ⟨hdrawable, fun e he => Outline.cause_of_ofTokens hdrawable he, sketched, hsketch,
      hdraw, fun label style hfinite => ?_⟩
    exact Formula.ofPathData_eq_ok_iff.mpr
      ⟨sketched, bind_eq_ok.mpr ⟨tokens, hread, hdraw.mpr hfinite⟩, rfl⟩
  · cases houtline : Outline.ofTokens tokens with
    | error e => exact ⟨e, rfl⟩
    | ok outline =>
      obtain ⟨hclose, hargs⟩ := Outline.isDrawable_of_ofTokens houtline token htoken
      exact absurd hfaulty (not_or.mpr ⟨hclose, not_not.mpr hargs⟩)

/-- The tokens of `M1 2t3 4z`: a smooth curve, and the way back. -/
def curveAndBack : List (Token Float) :=
  [⟨.move, [1, 2], 0⟩, ⟨.smoothQuadratic, [3, 4], 4⟩, ⟨.line, [-3, -4], 8⟩]

/-- Its closing is resolved, and it has a formula. A line with one argument has none. -/
theorem ofTokens_of_parsePath_curveAndBack :
    parsePath "M1 2t3 4z" = .ok curveAndBack ∧
      (∀ token ∈ curveAndBack, token.command ≠ .close) ∧
      (∀ label style, ∃ f, Formula.ofPathData label "M1 2t3 4z" style = .ok f) ∧
      ∃ e, Outline.ofTokens (curveAndBack ++ [⟨.line, [1], 9⟩]) = .error e := by
  obtain ⟨hread, hfaulty⟩ := ofTokens_of_parsePath
  have htokens : parsePath "M1 2t3 4z" = .ok curveAndBack := by decide +kernel
  have hcurves : Outline.sketch curveAndBack =
      .ok ⟨[.quadratic ⟨1, 2⟩ ⟨1, 2⟩ ⟨4, 6⟩, .line ⟨4, 6⟩ ⟨-3, -4⟩]⟩ := by decide +kernel
  obtain ⟨hdrawable, -, sketched, hsketch, -, hformula⟩ := hread _ _ htokens
  obtain rfl := Except.ok.inj (hsketch.symm.trans hcurves)
  refine ⟨htokens, fun token htoken => (hdrawable token htoken).1, fun label style => ?_, ?_⟩
  · exact ⟨_, hformula label style (List.forall_mem_cons.mpr
      ⟨by decide +kernel, List.forall_mem_singleton.mpr (by decide +kernel)⟩)⟩
  · exact hfaulty _ ⟨.line, [1], 9⟩ List.mem_concat_self (.inr (by decide))

end PiecewiseGlyph
