import PiecewiseGlyph.Glyph
import PiecewiseGlyph.Proofs.Decimal.Binary64
import PiecewiseGlyph.Proofs.Decimal.Plain
import PiecewiseGlyph.Proofs.Formula.ReadBack

/-!
# The numbers of formulas

* `exists_formulaNumber_eq`: a finite number is written with an optional minus, digits, and an
  optional point before the last of them;
* `Reading.writes_formulaNumber`: it is read back as its shortest decimal;
* `unsigned_eq_of_formulaValue`: so it is told by its text, but for the sign of zero, which
  `formulaNumber_unsigned` says is not written.
-/

namespace PiecewiseGlyph

/-- The number that the text of a number denotes. -/
def formulaValue (x : Float) : Rat := shortestValue .toLarger x

/-- The sign of zero is not written. -/
theorem formulaNumber_unsigned : formulaNumber ∘ unsigned = formulaNumber := by
  funext x
  rw [Function.comp_apply, unsigned]
  split
  · rename_i hzero
    have h₀ : formulaNumber 0 = "0" := by decide +kernel
    rw [h₀, formulaNumber, if_pos hzero]
  · rfl

theorem unsigned_eq_of_formulaValue {x y : Float} (h : formulaValue x = formulaValue y) :
    unsigned x = unsigned y := unsigned_eq_of_shortestValue h

/-- No zero is below or above another. -/
theorem le_zero_of_beq_zero {x : Float} (h : (x == 0) = true) : x ≤ 0 := by
  change (x.toModel.unpack.compare (0 : Float).toModel.unpack == some .eq) = true at h
  have hle : (x.toModel.unpack.compare (0 : Float).toModel.unpack).any Ordering.isLE = true := by
    rw [beq_iff_eq.mp h]
    rfl
  exact decide_eq_true hle

/-- A divisor is no zero. -/
theorem unsigned_of_isDivisor {x : Float} (hx : isDivisor x = true) : unsigned x = x := by
  rw [isDivisor, Bool.and_eq_true, Bool.not_eq_true', decide_eq_false_iff_not] at hx
  exact if_neg fun hzero => hx.2 (le_zero_of_beq_zero hzero)

/-- A plain decimal without its sign. -/
def plainMagnitude (x : Float) : String :=
  if x.isFinite then (Decimal.ofFloat .toLarger x).positional "" else Layout.plain.infinite

theorem write_plain (x : Float) :
    Layout.plain.write x =
      if x.isNaN then Layout.plain.notANumber
      else if signBit x then "-" ++ plainMagnitude x else plainMagnitude x := rfl

/-- What a finite number is written as: an optional minus, digits, and an optional point. -/
theorem exists_formulaNumber_eq {x : Float} (hx : x.isFinite = true) :
    ∃ (negative : Bool) (whole fraction : List Char) (q : Rat),
      (formulaNumber x).toList = (if negative then ['-'] else []) ++ pointed whole fraction ∧
      Denote whole fraction q ∧ (if negative then -q else q) = formulaValue x := by
  rw [formulaNumber, formulaValue, shortestValue]
  split
  · exact ⟨false, ['0'], [], 0, rfl, ⟨by decide, isDigits_replicate 1, by decide +kernel⟩, rfl⟩
  · obtain ⟨whole, fraction, htext, hdenote⟩ := (Decimal.ofFloat .toLarger x).exists_pointed_eq
    refine ⟨signBit x, whole, fraction, _, ?_, hdenote, rfl⟩
    rw [write_plain, isNaN_of_isFinite hx, if_neg Bool.false_ne_true, plainMagnitude, if_pos hx]
    split
    · rw [String.toList_append, htext]
      rfl
    · rw [htext]
      rfl

namespace Reading

theorem isLiteralChar_of_isDigit {c : Char} (hc : c.isDigit = true) : isLiteralChar c = true := by
  rw [isLiteralChar, hc]
  rfl

/-- A finite number is written in plain decimals, which are read as its shortest decimal. -/
theorem writes_formulaNumber {x : Float} (hx : x.isFinite = true) :
    Writes Scalar.read? formulaNumber formulaValue x := by
  obtain ⟨negative, whole, fraction, q, htext, hdenote, hvalue⟩ := exists_formulaNumber_eq hx
  constructor
  · have hdigit : ∀ c ∈ whole ++ fraction, isLiteralChar c = true := fun c hc =>
      isLiteralChar_of_isDigit (hdenote.digits c hc)
    rw [htext, List.all_eq_true, pointed]
    intro c hc
    rcases List.mem_append.mp hc with hsign | hc
    · cases negative with
      | true => rw [List.mem_singleton.mp hsign]; rfl
      | false => cases hsign
    · rcases List.mem_append.mp hc with hc | hc
      · exact hdigit c (List.mem_append_left _ hc)
      · split at hc
        · cases hc
        · rcases List.mem_cons.mp hc with rfl | hc
          · rfl
          · exact hdigit c (List.mem_append_right _ hc)
  · change ((Numeral.read? _).bind Numeral.toRat?).filter _ = _
    rw [htext, Numeral.toRat?_read?_pointed negative hdenote, hvalue]
    rfl

/-- What is no finite number is written as a word. -/
theorem all_formulaNumber (x : Float) :
    (formulaNumber x).toList.all (fun c => c.isAlpha || isLiteralChar c) = true := by
  by_cases hx : x.isFinite = true
  · refine List.all_eq_true.mpr fun c hc => Bool.or_eq_true_iff.mpr (.inr ?_)
    exact List.all_eq_true.mp (writes_formulaNumber hx).chars c hc
  · rw [formulaNumber, write_plain, plainMagnitude, if_neg hx]
    split
    · decide
    · split
      · decide
      · split <;> decide

end Reading

end PiecewiseGlyph
