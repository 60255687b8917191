import PiecewiseGlyph.Decimal.Layout
import PiecewiseGlyph.Proofs.Decimal.Shortest

/-!
# Numbers told by their shortest decimals

A finite binary64 number is given by its sign and its `Binary`, and both can be told from its
shortest decimal.

* `eq_of_toBits` and `eq_of_ofBits`: what a number is given by;
* `shortestValue` is the number that the shortest decimal denotes, with its sign;
* `unsigned_eq_of_shortestValue`: different numbers have different shortest decimals. The two zeros
  are not told apart.
-/

namespace PiecewiseGlyph

/-! ## The bits of a number -/

/-- Numbers with the same bits are equal. -/
theorem eq_of_toBits {x y : Float} (h : x.toBits = y.toBits) : x = y := by
  obtain ⟨⟨bits, hx⟩⟩ := x
  obtain ⟨⟨bits', hy⟩⟩ := y
  obtain rfl : bits = bits' := h
  rfl

theorem isNaN_of_isFinite {x : Float} (h : x.isFinite = true) : x.isNaN = false := by
  change x.toModel.unpack.isFinite = true at h
  change x.toModel.unpack.isNaN = false
  cases hx : x.toModel.unpack with
  | notANumber =>
    rw [hx] at h
    cases h
  | infinity sign => rfl
  | zero sign => rfl
  | finite sign mantissa exponent hpos => rfl

namespace Binary

/-- Bits are decoded without loss of anything but the sign. -/
theorem ofBits_inj {bits bits' : UInt64} (h : ofBits bits = ofBits bits') :
    bits.toNat % Nat.pow 2 63 = bits'.toNat % Nat.pow 2 63 := by
  have h₅₂ : Nat.pow 2 52 = 4503599627370496 := rfl
  have h₁₁ : Nat.pow 2 11 = 2048 := rfl
  have h₆₃ : Nat.pow 2 63 = 9223372036854775808 := rfl
  unfold ofBits at h
  rw [h₅₂, h₁₁] at h
  rw [h₆₃]
  dsimp only at h
  split at h <;> split at h <;> rw [mk.injEq] at h <;> omega

end Binary

/-- A number is given by its sign and its magnitude. -/
theorem eq_of_ofBits {x y : Float} (hsign : signBit x = signBit y)
    (h : Binary.ofBits x.toBits = Binary.ofBits y.toBits) : x = y := by
  have hmod := Binary.ofBits_inj h
  have h₆₃ : Nat.pow 2 63 = 9223372036854775808 := rfl
  rw [signBit, signBit, decide_eq_decide] at hsign
  rw [h₆₃] at hmod hsign
  have hx := x.toBits.toNat_lt
  have hy := y.toBits.toNat_lt
  exact eq_of_toBits (UInt64.toNat_inj.mp (by omega))

/-- A magnitude of zero is that of the two zeros. -/
theorem beq_zero_of_significand {x : Float} (h : (Binary.ofBits x.toBits).significand = 0) :
    (x == 0) = true := by
  have hbinary : Binary.ofBits x.toBits = ⟨0, -1074⟩ := by
    have hregular := Binary.regular_ofBits x.toBits
    generalize Binary.ofBits x.toBits = b at h hregular
    obtain ⟨significand, exponent⟩ := b
    obtain rfl : significand = 0 := h
    by_contra hne
    have hpos := hregular.normal fun hexponent => hne (by rw [show exponent = -1074 from hexponent])
    exact absurd hpos (Nat.not_le.mpr (Nat.pow_pos (by decide)))
  have hzero : ∀ z : Float, Binary.ofBits z.toBits = ⟨0, -1074⟩ → signBit x = signBit z →
      (z == 0) = true → (x == 0) = true := by
    intro z hz hsign hbeq
    rwa [eq_of_ofBits hsign (hbinary.trans hz.symm)]
  cases hsign : signBit x with
  | false => exact hzero 0 (by decide +kernel) (hsign.trans (by decide +kernel)) (by decide +kernel)
  | true =>
    exact hzero (-0) (by decide +kernel) (hsign.trans (by decide +kernel)) (by decide +kernel)

/-! ## The value of the shortest decimal -/

/-- The number that the shortest decimal of a number denotes. Zero has no sign. -/
def shortestValue (tie : Tie) (x : Float) : Rat :=
  if x == 0 then 0
  else if signBit x then -(Decimal.ofFloat tie x).toRat else (Decimal.ofFloat tie x).toRat

/-- A number whose sign does not count if it is zero. -/
def unsigned (x : Float) : Float := if x == 0 then 0 else x

section

variable {tie : Tie} {x y : Float}

theorem toRat_nonneg (d : Decimal) : 0 ≤ d.toRat := by
  unfold Decimal.toRat
  positivity

/-- A number that is no zero has a magnitude that is none. -/
theorem toRat_ofFloat_pos (tie : Tie) (h : (x == 0) = false) :
    0 < (Decimal.ofFloat tie x).toRat := by
  refine lt_of_le_of_ne (toRat_nonneg _) fun hzero => ?_
  have hrounds := Decimal.rounds_ofFloat tie x
  rw [← hzero] at hrounds
  have hregular : (Binary.mk 0 (-1074)).Regular := ⟨by decide, le_refl _, fun h => absurd rfl h⟩
  have hbinary := Binary.eq_of_rounds (Binary.regular_ofBits x.toBits) hregular hrounds
    (Binary.rounds_zero rfl)
  rw [beq_zero_of_significand (by rw [hbinary])] at h
  cases h

/-- Magnitudes are told by their shortest decimals. -/
theorem ofBits_eq_of_toRat (h : (Decimal.ofFloat tie x).toRat = (Decimal.ofFloat tie y).toRat) :
    Binary.ofBits x.toBits = Binary.ofBits y.toBits :=
  Binary.eq_of_rounds (Binary.regular_ofBits _) (Binary.regular_ofBits _)
    (Decimal.rounds_ofFloat tie x) (h ▸ Decimal.rounds_ofFloat tie y)

/-- **Different numbers have different shortest decimals.** -/
theorem unsigned_eq_of_shortestValue (h : shortestValue tie x = shortestValue tie y) :
    unsigned x = unsigned y := by
  unfold shortestValue at h
  unfold unsigned
  cases hx : x == 0 <;> cases hy : y == 0 <;>
    simp only [hx, hy, Bool.false_eq_true, if_false, if_true] at h ⊢
  · have hxpos := toRat_ofFloat_pos tie hx
    have hypos := toRat_ofFloat_pos tie hy
    cases hsx : signBit x <;> cases hsy : signBit y <;>
      simp only [hsx, hsy, Bool.false_eq_true, if_false, if_true] at h
    · exact eq_of_ofBits (hsx.trans hsy.symm) (ofBits_eq_of_toRat h)
    · linarith
    · linarith
    · exact eq_of_ofBits (hsx.trans hsy.symm) (ofBits_eq_of_toRat (neg_inj.mp h))
  · have hxpos := toRat_ofFloat_pos tie hx
    split at h <;> linarith
  · have hypos := toRat_ofFloat_pos tie hy
    split at h <;> linarith

end

end PiecewiseGlyph
