import PiecewiseGlyph.Proofs.Closing

/-!
# What resolving closings does

Resolving closings is a rewriting in place: a token becomes what the tokens before it since the last
closing say, and nothing that was drawn before that closing counts. With binary64 numbers the walk
may carry a zero of either sign past a closing that is left out, which makes no difference.

* `Scalar.SignlessZero` are numbers whose zeros cannot be told apart by sums; binary64 numbers and
  rational numbers are such;
* `Point.Alike` relates ways that differ at most in the signs of zeros, and
  `closeContoursFrom_eq_of_alike` says that the walk goes on from them alike;
* `foldl_carry_alike`: what the walk carries is the way drawn since the last closing;
* `ClosesInPlace` is what resolving closings does, and `closesInPlace` that it does so;
* `closings_in_place`: with rational numbers the way of every stretch between closings is then none.
-/

namespace PiecewiseGlyph

/-! ## Zeros -/

/-- Two numbers are equal, or both are zeros. -/
def Scalar.Alike {α : Type} [Scalar α] (a b : α) : Prop :=
  a = b ∨ (a == zero) = true ∧ (b == zero) = true

/-- Numbers whose zeros cannot be told apart: not by a sum, unless it is a zero again, and not by
what is left when they are taken from zero. -/
class Scalar.SignlessZero (α : Type) [Scalar α] : Prop where
  zero_beq_zero : ((zero : α) == zero) = true
  alike_add : ∀ {a b : α}, (a == zero) = true → (b == zero) = true → ∀ c, Alike (a + c) (b + c)
  zero_sub_eq : ∀ {a b : α}, (a == zero) = true → (b == zero) = true → zero - a = zero - b

instance : Scalar.SignlessZero Rat where
  zero_beq_zero := rfl
  alike_add ha hb c := by rw [eq_of_beq ha, eq_of_beq hb]; exact .inl rfl
  zero_sub_eq ha hb := by rw [eq_of_beq ha, eq_of_beq hb]

section Binary64

open Float.Model

/-- A number is a zero if its sign is all that is left of it. -/
theorem exists_unpack_eq_zero {a : Float} (h : (a == Scalar.zero) = true) :
    ∃ sign, a.toModel.unpack = .zero sign := by
  change (a.toModel.unpack.compare (.zero .positive) == some .eq) = true at h
  cases ha : a.toModel.unpack with
  | zero sign => exact ⟨sign, rfl⟩
  | notANumber =>
    rw [ha] at h
    cases h
  | infinity sign =>
    rw [ha] at h
    cases sign <;> cases h
  | finite sign mantissa exponent hpos =>
    rw [ha] at h
    cases sign <;> cases h

theorem beq_zero_of_pack (sign : UnpackedFloat.Sign) :
    ((⟨pack (.zero sign)⟩ : Float) == Scalar.zero) = true := by
  cases sign <;> decide +kernel

theorem add_eq_pack (a b : Float) :
    a + b = ⟨pack (UnpackedFloat.add Format.binary64 a.toModel.unpack b.toModel.unpack)⟩ := rfl

instance : Scalar.SignlessZero Float where
  zero_beq_zero := by decide +kernel
  alike_add {a b} ha hb c := by
    obtain ⟨sign, ha⟩ := exists_unpack_eq_zero ha
    obtain ⟨sign', hb⟩ := exists_unpack_eq_zero hb
    rw [add_eq_pack, add_eq_pack, ha, hb]
    cases c.toModel.unpack with
    | zero sign'' =>
      -- only here the signs of the zeros count, and the sum is a zero
      refine .inr ⟨?_, ?_⟩
      · cases sign <;> cases sign'' <;> exact beq_zero_of_pack _
      · cases sign' <;> cases sign'' <;> exact beq_zero_of_pack _
    | _ => exact .inl rfl
  zero_sub_eq {a b} ha hb := by
    obtain ⟨sign, ha⟩ := exists_unpack_eq_zero ha
    obtain ⟨sign', hb⟩ := exists_unpack_eq_zero hb
    change (⟨pack (UnpackedFloat.sub Format.binary64 (.zero .positive) a.toModel.unpack)⟩ : Float) =
      ⟨pack (UnpackedFloat.sub Format.binary64 (.zero .positive) b.toModel.unpack)⟩
    rw [ha, hb]
    cases sign <;> cases sign' <;> rfl

end Binary64

/-! ## Ways -/

section Walk

variable {α : Type} [Scalar α]

/-- Two ways differ at most in the signs of zeros. -/
structure Point.Alike (p q : Point α) : Prop where
  x : Scalar.Alike p.x q.x
  y : Scalar.Alike p.y q.y

namespace Point.Alike

variable {p q : Point α}

theorem refl (p : Point α) : p.Alike p := ⟨.inl rfl, .inl rfl⟩

theorem isOrigin_eq (h : p.Alike q) : p.isOrigin = q.isOrigin := by
  have hbeq : ∀ {a b : α}, Scalar.Alike a b → (a == Scalar.zero) = (b == Scalar.zero) := by
    rintro a b (rfl | ⟨ha, hb⟩)
    · rfl
    · rw [ha, hb]
  rw [isOrigin, isOrigin, hbeq h.x, hbeq h.y]

variable [Scalar.SignlessZero α]

/-- No way at all is the way of the origin. -/
theorem of_isOrigin (h : p.isOrigin = true) : p.Alike origin := by
  obtain ⟨hx, hy⟩ := Bool.and_eq_true_iff.mp h
  exact ⟨.inr ⟨hx, Scalar.SignlessZero.zero_beq_zero⟩, .inr ⟨hy, Scalar.SignlessZero.zero_beq_zero⟩⟩

theorem add (h : p.Alike q) (r : Point α) : (p + r).Alike (q + r) := by
  have hadd : ∀ {a b : α}, Scalar.Alike a b → ∀ c, Scalar.Alike (a + c) (b + c) := by
    rintro a b (rfl | ⟨ha, hb⟩) c
    · exact .inl rfl
    · exact Scalar.SignlessZero.alike_add ha hb c
  exact ⟨hadd h.x r.x, hadd h.y r.y⟩

theorem opposite_eq (h : p.Alike q) : p.opposite = q.opposite := by
  have hsub : ∀ {a b : α}, Scalar.Alike a b → Scalar.zero - a = Scalar.zero - b := by
    rintro a b (rfl | ⟨ha, hb⟩)
    · rfl
    · exact Scalar.SignlessZero.zero_sub_eq ha hb
  rw [opposite, opposite, hsub h.x, hsub h.y]

end Point.Alike

/-- The way drawn since the last closing: the displacements of the tokens that draw, added up from
the first on. -/
def drawnSinceClosing (tokens : List (Token α)) : Point α :=
  ((tokens.rtakeWhile (·.command ≠ .close)).filter (·.command.draws)).foldl
    (fun way token => way + token.displacement) Point.origin

section Concat

variable (tokens : List (Token α)) {token : Token α}

theorem drawnSinceClosing_concat_close (h : token.command = .close) :
    drawnSinceClosing (tokens ++ [token]) = Point.origin := by
  rw [drawnSinceClosing, List.rtakeWhile_concat_neg _ _ _ (by simpa using h)]
  rfl

theorem drawnSinceClosing_concat (h : token.command ≠ .close) :
    drawnSinceClosing (tokens ++ [token]) =
      if token.command.draws then drawnSinceClosing tokens + token.displacement
      else drawnSinceClosing tokens := by
  rw [drawnSinceClosing, List.rtakeWhile_concat_pos _ _ _ (by simpa using h), List.filter_append,
    List.foldl_append, List.filter_singleton]
  cases token.command.draws <;> rfl

end Concat

/-! ## The walk -/

/-- A list without closings is left as it is. -/
theorem closeContoursFrom_eq_self (way : Point α) {tokens : List (Token α)}
    (h : ∀ token ∈ tokens, token.command ≠ .close) : closeContoursFrom way tokens = tokens := by
  induction tokens generalizing way with
  | nil => rfl
  | cons token rest ih =>
    obtain ⟨htoken, hrest⟩ := List.forall_mem_cons.mp h
    rw [closeContoursFrom_cons, resolve, if_neg htoken, ih _ hrest]
    rfl

/-- A closing is left out, or becomes a line. -/
theorem not_close_of_mem_closeContoursFrom (way : Point α) (tokens : List (Token α)) :
    ∀ token ∈ closeContoursFrom way tokens, token.command ≠ .close := by
  induction tokens generalizing way with
  | nil => exact List.forall_mem_nil _
  | cons token rest ih =>
    rw [closeContoursFrom_cons]
    refine List.forall_mem_append.mpr ⟨?_, ih _⟩
    rw [resolve]
    split
    · split
      · exact List.forall_mem_nil _
      · exact List.forall_mem_singleton.mpr Command.noConfusion
    · rename_i hclose
      exact List.forall_mem_singleton.mpr hclose

variable [Scalar.SignlessZero α]

theorem resolve_eq_of_alike {p q : Point α} (h : p.Alike q) (token : Token α) :
    resolve p token = resolve q token := by
  rw [resolve, resolve, h.isOrigin_eq, closingLine, closingLine, h.opposite_eq]

theorem Point.Alike.carry {p q : Point α} (h : p.Alike q) (token : Token α) :
    (carry p token).Alike (carry q token) := by
  rw [PiecewiseGlyph.carry, PiecewiseGlyph.carry, h.isOrigin_eq]
  split
  · split
    · exact h
    · exact .refl _
  · split
    · exact h.add token.displacement
    · exact h

/-- The walk goes on alike from ways that differ in the signs of zeros. -/
theorem closeContoursFrom_eq_of_alike {p q : Point α} (h : p.Alike q) (tokens : List (Token α)) :
    closeContoursFrom p tokens = closeContoursFrom q tokens := by
  induction tokens generalizing p q with
  | nil => rfl
  | cons token rest ih =>
    rw [closeContoursFrom_cons, closeContoursFrom_cons, resolve_eq_of_alike h, ih (h.carry token)]

/-- After a closing the way is none, whether a line was drawn or not. -/
theorem carry_close_alike (way : Point α) {z : Token α} (hz : z.command = .close) :
    (carry way z).Alike Point.origin := by
  rw [carry, if_pos hz]
  split
  · rename_i hway
    exact .of_isOrigin hway
  · exact .refl _

/-- **The walk carries the way drawn since the last closing**, up to the signs of zeros. -/
theorem foldl_carry_alike (tokens : List (Token α)) :
    (tokens.foldl carry Point.origin).Alike (drawnSinceClosing tokens) := by
  induction tokens using List.reverseRecOn with
  | nil => exact .refl _
  | append_singleton tokens token ih =>
    rw [List.foldl_append, List.foldl_cons, List.foldl_nil]
    by_cases hclose : token.command = .close
    · rw [drawnSinceClosing_concat_close _ hclose]
      exact carry_close_alike _ hclose
    · rw [drawnSinceClosing_concat _ hclose, carry, if_neg hclose]
      split
      · exact ih.add _
      · exact ih

theorem closeContours_concat_eq (tokens : List (Token α)) (token : Token α) :
    closeContours (tokens ++ [token]) =
      closeContours tokens ++ resolve (drawnSinceClosing tokens) token := by
  rw [closeContours_concat, resolve_eq_of_alike (foldl_carry_alike tokens)]

/-- After a closing the walk begins anew. -/
theorem closeContours_append_close (xs ys : List (Token α)) {z : Token α}
    (hz : z.command = .close) :
    closeContours (xs ++ z :: ys) = closeContours (xs ++ [z]) ++ closeContours ys := by
  rw [List.append_cons, closeContours, closeContoursFrom_append, List.foldl_append, List.foldl_cons,
    List.foldl_nil, closeContoursFrom_eq_of_alike (carry_close_alike _ hz)]
  rfl

/-- Each token becomes what the way before it says. -/
theorem closeContours_eq_flatten (tokens : List (Token α)) :
    closeContours tokens =
      (tokens.mapIdx fun k token => resolve (drawnSinceClosing (tokens.take k)) token).flatten := by
  induction tokens using List.reverseRecOn with
  | nil => rfl
  | append_singleton tokens token ih =>
    have hbefore : (tokens.mapIdx fun k t =>
          resolve (drawnSinceClosing ((tokens ++ [token]).take k)) t) =
        tokens.mapIdx fun k t => resolve (drawnSinceClosing (tokens.take k)) t := by
      refine List.mapIdx_eq_mapIdx_iff.mpr fun k hk => ?_
      rw [List.take_append_of_le_length (Nat.le_of_lt hk)]
    rw [closeContours_concat_eq, List.mapIdx_concat, List.flatten_append, hbefore, ← ih,
      List.take_left, List.flatten_singleton]

/-! ## The rewriting -/

/-- What resolving closings does. -/
structure ClosesInPlace (α : Type) [Scalar α] : Prop where
  /-- No closing is left. -/
  not_close : ∀ tokens : List (Token α), ∀ token ∈ closeContours tokens, token.command ≠ .close
  /-- All other tokens are kept. A closing is left out if the way drawn since the last one is none,
  and else becomes the line back along it. -/
  in_place : ∀ tokens : List (Token α), closeContours tokens =
    (tokens.mapIdx fun k token => resolve (drawnSinceClosing (tokens.take k)) token).flatten
  /-- What stands after a closing is resolved on its own. -/
  append_close : ∀ (xs ys : List (Token α)) (z : Token α), z.command = .close →
    closeContours (xs ++ z :: ys) = closeContours (xs ++ [z]) ++ closeContours ys
  /-- Once is enough. -/
  idempotent : ∀ tokens : List (Token α),
    closeContours (closeContours tokens) = closeContours tokens

theorem closesInPlace : ClosesInPlace α where
  not_close tokens := not_close_of_mem_closeContoursFrom Point.origin tokens
  in_place := closeContours_eq_flatten
  append_close xs ys _ hz := closeContours_append_close xs ys hz
  idempotent tokens :=
    closeContoursFrom_eq_self _ (not_close_of_mem_closeContoursFrom Point.origin tokens)

end Walk

/-! ## Stretches between closings -/

/-- The sum may be taken of all displacements. -/
theorem drawnSinceClosing_eq_wayDrawn (tokens : List (Token Rat)) :
    drawnSinceClosing tokens = wayDrawn tokens := by
  induction tokens using List.reverseRecOn with
  | nil => rfl
  | append_singleton tokens token ih =>
    by_cases hclose : token.command = .close
    · rw [drawnSinceClosing_concat_close _ hclose, wayDrawn_concat_close _ hclose]
      rfl
    · rw [drawnSinceClosing_concat _ hclose, wayDrawn_concat _ hclose, ih]
      split
      · rfl
      · rename_i hdraws
        rw [displacement_of_not_draws (by simpa using hdraws), add_zero]

/-- A stretch comes back to where it began when its closing is resolved. -/
theorem sum_displacement_resolve {stretch : List (Token Rat)} {z : Token Rat}
    (hz : z.command = .close) (hstretch : ∀ token ∈ stretch, token.command ≠ .close) :
    ((stretch ++ resolve (drawnSinceClosing stretch) z).map Token.displacement).sum = 0 := by
  have hsum : (stretch.map Token.displacement).sum = drawnSinceClosing stretch := by
    rw [drawnSinceClosing_eq_wayDrawn, wayDrawn, sinceClosing,
      List.rtakeWhile_eq_self_iff.mpr fun token htoken => by simpa using hstretch token htoken]
  rw [List.map_append, List.sum_append, hsum, resolve, if_pos hz]
  split
  · rename_i hway
    rw [List.map_nil, List.sum_nil, add_zero, (Point.isOrigin_iff _).mp hway]
    rfl
  · rw [List.map_singleton, List.sum_singleton]
    exact add_neg_cancel _

theorem closeContours_stretch {stretch : List (Token Rat)} (z : Token Rat)
    (hstretch : ∀ token ∈ stretch, token.command ≠ .close) :
    closeContours (stretch ++ [z]) = stretch ++ resolve (drawnSinceClosing stretch) z := by
  rw [closeContours_concat_eq, closeContours, closeContoursFrom_eq_self _ hstretch]

/-- **Resolving closings is a rewriting in place**, of binary64 numbers as of rational numbers. With
rational numbers, where nothing is rounded, each stretch of tokens up to a closing becomes the
stretch with a line back or with nothing, and its way is none then. -/
theorem closings_in_place :
    ClosesInPlace Float ∧ ClosesInPlace Rat ∧
      ∀ (before stretch after : List (Token Rat)) (z : Token Rat), z.command = .close →
        (∀ last ∈ before.getLast?, last.command = .close) →
        (∀ token ∈ stretch, token.command ≠ .close) →
        closeContours (before ++ (stretch ++ z :: after)) =
            closeContours before ++ (stretch ++ resolve (drawnSinceClosing stretch) z) ++
              closeContours after ∧
          ((stretch ++ resolve (drawnSinceClosing stretch) z).map Token.displacement).sum = 0 := by
  refine ⟨closesInPlace, closesInPlace, fun before stretch after z hz hbefore hstretch => ?_⟩
  refine ⟨?_, sum_displacement_resolve hz hstretch⟩
  have hrest : closeContours (stretch ++ z :: after) =
      stretch ++ resolve (drawnSinceClosing stretch) z ++ closeContours after := by
    rw [closeContours_append_close _ _ hz, closeContours_stretch z hstretch]
  rcases List.eq_nil_or_concat before with rfl | ⟨xs, last, rfl⟩
  · exact hrest
  · rw [List.concat_eq_append] at hbefore ⊢
    have hlast : last.command = .close := hbefore last (by rw [List.getLast?_concat]; rfl)
    rw [← List.append_cons, closeContours_append_close _ _ hlast, hrest, List.append_assoc,
      List.append_assoc, List.append_assoc]

/-! A closing that is left out after a step by a negative zero, and one that leads back. -/

/-- A step by a negative zero. -/
def noStep : List (Token Float) := [⟨.move, [1, 1], 0⟩, ⟨.horizontal, [-0], 4⟩]

/-- A way whose length is rounded. -/
def upwards : List (Token Float) :=
  [⟨.vertical, [0.1], 8⟩, ⟨.vertical, [0.2], 12⟩, ⟨.close, [], 16⟩]

/-- A line and a curve, with a move between them that does not count. -/
def lineAndCurve : List (Token Rat) :=
  [⟨.line, [1, 2], 0⟩, ⟨.move, [7, 7], 5⟩, ⟨.smoothQuadratic, [2, 2], 9⟩]

theorem closings_in_place_noStep :
    closeContours (noStep ++ ⟨.close, [], 7⟩ :: upwards) = noStep ++ closeContours upwards ∧
      closeContours (lineAndCurve ++ [⟨.close, [], 13⟩]) = lineAndCurve ++ [closingLine ⟨3, 4⟩ 13] ∧
      ((lineAndCurve ++ [closingLine ⟨3, 4⟩ 13]).map Token.displacement).sum = 0 := by
  obtain ⟨hbinary64, -, hstretch⟩ := closings_in_place
  have hleftOut : closeContours (noStep ++ [⟨.close, [], 7⟩]) = noStep := by decide +kernel
  have hback : resolve (drawnSinceClosing lineAndCurve) ⟨.close, [], 13⟩ =
      [closingLine ⟨3, 4⟩ 13] := by decide +kernel
  obtain ⟨hresolved, hsum⟩ := hstretch [] lineAndCurve [] ⟨.close, [], 13⟩ rfl nofun (by decide)
  rw [hback] at hresolved hsum
  refine ⟨?_, hresolved, hsum⟩
  rw [hbinary64.append_close noStep upwards ⟨.close, [], 7⟩ rfl, hleftOut]

end PiecewiseGlyph
