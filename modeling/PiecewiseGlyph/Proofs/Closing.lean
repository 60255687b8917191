import Mathlib.Algebra.BigOperators.Group.List.Basic
import Mathlib.Data.List.DropRight
import PiecewiseGlyph.Path.Token
import PiecewiseGlyph.Proofs.Drawing
import PiecewiseGlyph.Proofs.Plane

/-!
# Where closing leads

Resolving closings is a walk over the tokens that carries the way drawn since the last closing. In
the rational plane we compare the pen with that way.

* `closeContoursFrom_append`: the walk goes on after any list from the way carried so far;
* `position_add_leftOpen`: the pen is where the last move and the way since the last closing put it,
  short of the way that was left open at that move;
* `close_reaches_start_iff`: hence a closing leads to the start of its contour exactly if the
  contours before the last move had been closed, or came back to their start by themselves.
-/

namespace PiecewiseGlyph

/-! ## The walk -/

section Walk

variable {α : Type} [Scalar α]

/-- The line that a closing at an offset stands for. -/
def closingLine (way : Point α) (offset : Nat) : Token α :=
  ⟨.line, [way.opposite.x, way.opposite.y], offset⟩

/-- What one token becomes. -/
def resolve (way : Point α) (token : Token α) : List (Token α) :=
  if token.command = .close then
    if way.isOrigin then [] else [closingLine way token.offset]
  else [token]

/-- The way carried on after one token. -/
def carry (way : Point α) (token : Token α) : Point α :=
  if token.command = .close then
    if way.isOrigin then way else Point.origin
  else if token.command.draws then way + token.displacement
  else way

theorem closeContoursFrom_cons (way : Point α) (token : Token α) (rest : List (Token α)) :
    closeContoursFrom way (token :: rest) =
      resolve way token ++ closeContoursFrom (carry way token) rest := by
  rw [closeContoursFrom, resolve, carry]
  split
  · split <;> rfl
  · rfl

/-- The walk over a list goes on where the walk over its first part ends. -/
theorem closeContoursFrom_append (way : Point α) (xs ys : List (Token α)) :
    closeContoursFrom way (xs ++ ys) =
      closeContoursFrom way xs ++ closeContoursFrom (xs.foldl carry way) ys := by
  induction xs generalizing way with
  | nil => rfl
  | cons token rest ih =>
    rw [List.cons_append, closeContoursFrom_cons, ih, closeContoursFrom_cons, List.append_assoc]
    rfl

theorem closeContours_concat (tokens : List (Token α)) (token : Token α) :
    closeContours (tokens ++ [token]) =
      closeContours tokens ++ resolve (tokens.foldl carry Point.origin) token := by
  rw [closeContours, closeContoursFrom_append, closeContoursFrom_cons]
  exact congrArg _ (List.append_nil _)

/-- What is left of complete tokens when closings are resolved can be drawn with. -/
theorem isDrawable_of_mem_closeContoursFrom {tokens : List (Token α)}
    (h : ∀ token ∈ tokens, token.command ≠ .close → token.args.length = token.command.arity)
    (way : Point α) : ∀ token ∈ closeContoursFrom way tokens, token.IsDrawable := by
  induction tokens generalizing way with
  | nil => exact nofun
  | cons token rest ih =>
    obtain ⟨htoken, hrest⟩ := List.forall_mem_cons.mp h
    intro t ht
    rw [closeContoursFrom_cons] at ht
    rcases List.mem_append.mp ht with ht | ht
    · rw [resolve] at ht
      split at ht
      · split at ht
        · cases ht
        · rw [List.mem_singleton.mp ht]
          exact ⟨Command.noConfusion, rfl⟩
      · rename_i hclose
        rw [List.mem_singleton.mp ht]
        exact ⟨hclose, htoken hclose⟩
    · exact ih hrest _ t ht

end Walk

/-! ## Contours -/

/-- The tokens after the last closing. -/
def sinceClosing (tokens : List (Token Rat)) : List (Token Rat) :=
  tokens.rtakeWhile (·.command ≠ .close)

/-- The tokens up to the last move. -/
def upToMove (tokens : List (Token Rat)) : List (Token Rat) :=
  tokens.rdropWhile (·.command ≠ .move)

/-- The way drawn since the last closing. -/
def wayDrawn (tokens : List (Token Rat)) : Point Rat :=
  ((sinceClosing tokens).map Token.displacement).sum

/-- The way that the last move left open: drawn before it, but after the closing before it. -/
def leftOpen (tokens : List (Token Rat)) : Point Rat := wayDrawn (upToMove tokens)

/-- The position that a move names. -/
def Token.target (token : Token Rat) : Point Rat :=
  match token.args with
  | [x, y] => ⟨x, y⟩
  | _ => Point.origin

/-- The start of the contour: where the last move went. -/
def contourStart (tokens : List (Token Rat)) : Point Rat :=
  ((upToMove tokens).getLast?.map Token.target).getD Point.origin

section Concat

variable (tokens : List (Token Rat)) {token : Token Rat}

theorem wayDrawn_concat_close (h : token.command = .close) : wayDrawn (tokens ++ [token]) = 0 := by
  rw [wayDrawn, sinceClosing, List.rtakeWhile_concat_neg _ _ _ (by simpa using h)]
  rfl

theorem wayDrawn_concat (h : token.command ≠ .close) :
    wayDrawn (tokens ++ [token]) = wayDrawn tokens + token.displacement := by
  rw [wayDrawn, sinceClosing, List.rtakeWhile_concat_pos _ _ _ (by simpa using h), List.map_append,
    List.sum_append, List.map_singleton, List.sum_singleton]
  rfl

theorem displacement_of_not_draws (h : token.command.draws = false) : token.displacement = 0 := by
  obtain ⟨command, args, offset⟩ := token
  cases command <;> first | rfl | cases h

theorem leftOpen_concat_move (h : token.command = .move) :
    leftOpen (tokens ++ [token]) = wayDrawn tokens := by
  have hclose : token.command ≠ .close := by rw [h]; decide
  rw [leftOpen, upToMove, List.rdropWhile_concat_neg _ _ _ (by simpa using h),
    wayDrawn_concat _ hclose, displacement_of_not_draws (by rw [h]; rfl), add_zero]

theorem leftOpen_concat (h : token.command ≠ .move) :
    leftOpen (tokens ++ [token]) = leftOpen tokens := by
  rw [leftOpen, upToMove, List.rdropWhile_concat_pos _ _ _ (by simpa using h)]
  rfl

theorem contourStart_concat_move (h : token.command = .move) :
    contourStart (tokens ++ [token]) = token.target := by
  rw [contourStart, upToMove, List.rdropWhile_concat_neg _ _ _ (by simpa using h),
    List.getLast?_concat]
  rfl

theorem contourStart_concat (h : token.command ≠ .move) :
    contourStart (tokens ++ [token]) = contourStart tokens := by
  rw [contourStart, upToMove, List.rdropWhile_concat_pos _ _ _ (by simpa using h)]
  rfl

/-- The walk carries the way drawn since the last closing. -/
theorem foldl_carry_eq_wayDrawn : tokens.foldl carry Point.origin = wayDrawn tokens := by
  induction tokens using List.reverseRecOn with
  | nil => rfl
  | append_singleton tokens token ih =>
    rw [List.foldl_append, List.foldl_cons, List.foldl_nil, ih, carry]
    split
    · rename_i h
      rw [wayDrawn_concat_close _ h]
      split
      · rename_i h₀
        exact (Point.isOrigin_iff _).mp h₀
      · rfl
    · rename_i h
      rw [wayDrawn_concat _ h]
      split
      · rfl
      · rename_i hd
        rw [displacement_of_not_draws (by simpa using hd), add_zero]

end Concat

/-! ## The pen -/

/-- What a token becomes can be drawn exactly if the token is a closing or has all its arguments. -/
theorem Pen.exists_follow_resolve_iff (pen : Pen Rat) (way : Point Rat) (token : Token Rat) :
    (∃ pen' segments, pen.follow (resolve way token) = .ok (pen', segments)) ↔
      (token.command ≠ .close → token.args.length = token.command.arity) := by
  rw [resolve]
  split
  · rename_i h
    refine ⟨fun _ h' => absurd h h', fun _ => ?_⟩
    split
    · exact ⟨pen, [], rfl⟩
    · exact ⟨_, _, follow_singleton_eq_ok_iff.mpr ⟨_, .line _ rfl rfl rfl, rfl⟩⟩
  · rename_i h
    constructor
    · rintro ⟨pen', segments, hf⟩ -
      obtain ⟨drawn, hs, -⟩ := follow_singleton_eq_ok_iff.mp hf
      exact hs.length_args
    · intro hargs
      obtain ⟨pen', drawn, hs⟩ := pen.exists_step Scalar.isFinite_rat ⟨h, hargs h⟩
      exact ⟨_, _, follow_singleton_eq_ok_iff.mpr ⟨_, hs, rfl⟩⟩

/-- Resolved tokens can be drawn exactly if all but the closings have all their arguments. -/
theorem exists_follow_closeContours_iff (tokens : List (Token Rat)) :
    (∃ pen segments, Pen.initial.follow (closeContours tokens) = .ok (pen, segments)) ↔
      ∀ token ∈ tokens, token.command ≠ .close → token.args.length = token.command.arity := by
  induction tokens using List.reverseRecOn with
  | nil => exact ⟨fun _ token h => (List.not_mem_nil h).elim, fun _ => ⟨_, _, rfl⟩⟩
  | append_singleton tokens token ih =>
    rw [closeContours_concat, foldl_carry_eq_wayDrawn]
    constructor
    · rintro ⟨pen, segments, hf⟩ t ht
      obtain ⟨pen₁, first, second, h₁, h₂, -⟩ := Pen.follow_append_eq_ok_iff.mp hf
      rcases List.mem_append.mp ht with ht | ht
      · exact ih.mp ⟨_, _, h₁⟩ t ht
      · rw [List.mem_singleton.mp ht]
        exact (pen₁.exists_follow_resolve_iff _ _).mp ⟨_, _, h₂⟩
    · intro h
      obtain ⟨pen₁, first, h₁⟩ := ih.mpr fun t ht => h t (List.mem_append_left _ ht)
      obtain ⟨pen, second, h₂⟩ := (pen₁.exists_follow_resolve_iff (wayDrawn tokens) token).mpr
        (h token List.mem_concat_self)
      exact ⟨_, _, Pen.follow_append_eq_ok_iff.mpr ⟨_, _, _, h₁, h₂, rfl⟩⟩

/-- The line that a closing stands for takes the pen back by the way drawn. -/
theorem position_of_follow_closingLine {pen pen' : Pen Rat} {way : Point Rat} {offset : Nat}
    {segments : List (Segment Rat)}
    (h : pen.follow [closingLine way offset] = .ok (pen', segments)) :
    pen'.position = pen.position + -way := by
  obtain ⟨drawn, hs, -⟩ := Pen.follow_singleton_eq_ok_iff.mp h
  exact hs.position_eq rfl

/-- **The invariant of closing.** The pen is where the last move and the way since the last closing
put it, short of the way left open at that move. -/
theorem position_add_leftOpen {tokens : List (Token Rat)} {pen : Pen Rat}
    {segments : List (Segment Rat)}
    (h : Pen.initial.follow (closeContours tokens) = .ok (pen, segments)) :
    pen.position + leftOpen tokens = contourStart tokens + wayDrawn tokens := by
  induction tokens using List.reverseRecOn generalizing pen segments with
  | nil =>
    cases h
    rfl
  | append_singleton tokens token ih =>
    rw [closeContours_concat, foldl_carry_eq_wayDrawn] at h
    obtain ⟨pen₁, first, second, h₁, h₂, -⟩ := Pen.follow_append_eq_ok_iff.mp h
    have ih := ih h₁
    by_cases hclose : token.command = .close
    · -- the way is taken back, whether a line is drawn for it or there is none
      have hmove : token.command ≠ .move := by rw [hclose]; decide
      rw [leftOpen_concat _ hmove, contourStart_concat _ hmove, wayDrawn_concat_close _ hclose,
        add_zero]
      rw [resolve, if_pos hclose] at h₂
      split at h₂
      · rename_i hway
        rw [(Point.isOrigin_iff _).mp hway, Point.origin_eq_zero, add_zero] at ih
        cases h₂
        exact ih
      · rw [position_of_follow_closingLine h₂, add_right_comm, ih, add_neg_cancel_right]
    · rw [resolve, if_neg hclose] at h₂
      obtain ⟨drawn, hs, -⟩ := Pen.follow_singleton_eq_ok_iff.mp h₂
      rw [wayDrawn_concat _ hclose]
      by_cases hdraws : token.command.draws = true
      · have hmove : token.command ≠ .move := by intro hm; rw [hm] at hdraws; cases hdraws
        rw [leftOpen_concat _ hmove, contourStart_concat _ hmove, hs.position_eq hdraws,
          add_right_comm, ih, add_assoc]
      · -- a move: what was drawn so far is what it leaves open
        obtain ⟨-, hmove, hargs⟩ := hs.drawn_eq_none (by simpa using hdraws)
        have htarget : token.target = pen.position := by rw [Token.target, hargs]
        rw [leftOpen_concat_move _ hmove, contourStart_concat_move _ hmove, htarget,
          displacement_of_not_draws (by simpa using hdraws), add_zero]

/-- A closing is left out exactly if no way was drawn since the last one. -/
theorem closeContours_concat_close_eq_iff (before : List (Token Rat)) {z : Token Rat}
    (hz : z.command = .close) :
    closeContours (before ++ [z]) = closeContours before ↔ wayDrawn before = 0 := by
  rw [closeContours_concat, foldl_carry_eq_wayDrawn, List.append_right_eq_self, resolve, if_pos hz]
  split
  · rename_i hway
    exact ⟨fun _ => (Point.isOrigin_iff _).mp hway, fun _ => rfl⟩
  · rename_i hway
    exact ⟨fun h => (List.cons_ne_nil _ _ h).elim,
      fun h => absurd ((Point.isOrigin_iff _).mpr h) hway⟩

/-- **Where a closing leads.** The pen comes to the place of a closing if all tokens before it have
their arguments. It is then at the start of the contour exactly if the last move left no way open;
and the closing is left out exactly if the pen was short of the start by the way left open. -/
theorem close_reaches_start_iff (before after : List (Token Rat)) {z : Token Rat}
    (hz : z.command = .close) :
    closeContours (before ++ z :: after) =
        closeContours (before ++ [z]) ++ closeContours after ∧
      ((∃ pen segments, Pen.initial.follow (closeContours (before ++ [z])) = .ok (pen, segments)) ↔
        ∀ token ∈ before, token.command ≠ .close → token.args.length = token.command.arity) ∧
      (∀ pen segments, Pen.initial.follow (closeContours (before ++ [z])) = .ok (pen, segments) →
        (pen.position = contourStart before ↔ leftOpen before = 0)) ∧
      ∀ pen segments, Pen.initial.follow (closeContours before) = .ok (pen, segments) →
        (closeContours (before ++ [z]) = closeContours before ↔
          pen.position + leftOpen before = contourStart before) := by
  have hmove : z.command ≠ .move := by rw [hz]; decide
  refine ⟨?_, ?_, fun pen segments h => ?_, fun pen segments h => ?_⟩
  · rw [List.append_cons, closeContours, closeContoursFrom_append, foldl_carry_eq_wayDrawn,
      wayDrawn_concat_close _ hz]
    rfl
  · rw [exists_follow_closeContours_iff]
    constructor
    · intro h token htoken
      exact h token (List.mem_append_left _ htoken)
    · intro h token htoken hclose
      rcases List.mem_append.mp htoken with htoken | htoken
      · exact h token htoken hclose
      · rw [List.mem_singleton.mp htoken] at hclose
        exact absurd hz hclose
  · have hinv := position_add_leftOpen h
    rw [leftOpen_concat _ hmove, contourStart_concat _ hmove, wayDrawn_concat_close _ hz,
      add_zero] at hinv
    rw [← hinv, left_eq_add]
  · rw [closeContours_concat_close_eq_iff _ hz, position_add_leftOpen h, add_eq_left]

/-- A contour of one line that a move leaves open, and another one: `M0 0l1 0M5 5l2 0`. -/
def openContours : List (Token Rat) :=
  [⟨.move, [0, 0], 0⟩, ⟨.line, [1, 0], 4⟩, ⟨.move, [5, 5], 8⟩, ⟨.line, [2, 0], 12⟩]

theorem close_reaches_start_iff_openContours :
    ∃ pen segments, Pen.initial.follow (closeContours (openContours ++ [⟨.close, [], 16⟩])) =
      .ok (pen, segments) ∧ pen.position ≠ contourStart openContours := by
  obtain ⟨-, hreached, hstart, -⟩ :=
    close_reaches_start_iff openContours [] (z := ⟨.close, [], 16⟩) rfl
  obtain ⟨pen, segments, h⟩ := hreached.mpr (by decide)
  have hopen : leftOpen openContours ≠ 0 := by decide +kernel
  exact ⟨pen, segments, h, mt (hstart pen segments h).mp hopen⟩

/-- After `M0 0l1 0M5 5l2 0z` the pen is not at the start of the second contour. -/
theorem not_close_reaches_start :
    ¬ ∀ (before : List (Token Rat)) (z : Token Rat) (pen : Pen Rat) (segments : List (Segment Rat)),
      z.command = .close →
      Pen.initial.follow (closeContours (before ++ [z])) = .ok (pen, segments) →
      pen.position = contourStart before := by
  intro h
  have hend := h openContours ⟨.close, [], 16⟩
    ⟨⟨4, 5⟩, some .line, Point.origin, Point.origin⟩
    [.line ⟨0, 0⟩ ⟨1, 0⟩, .line ⟨5, 5⟩ ⟨2, 0⟩, .line ⟨7, 5⟩ ⟨-3, 0⟩] rfl (by decide +kernel)
  exact absurd hend (by decide +kernel)

end PiecewiseGlyph
