import Mathlib.Algebra.Order.Field.Power
import Mathlib.Tactic.Linarith
import Mathlib.Tactic.Ring
import PiecewiseGlyph.Decimal.Shortest

/-!
# The reals that round to a number

The rounding interval of a binary number, as a set of rational numbers.

* `Binary.toRat` and `Decimal.toRat` are the values of binary and decimal numbers;
* `Binary.Regular` holds of the numbers that have a binary64 form (`Binary.regular_ofBits`);
* `Binary.Rounds` is the interval, and `Interval.holds_iff` says that `Interval.holds` decides it;
* `Binary.upper_le_lower`: the intervals are in the order of the numbers, and where two of them
  meet, the point they share belongs to at most one;
* `Binary.eq_of_rounds`: so no number rounds two ways.
-/

namespace PiecewiseGlyph

/-! ## Comparing binary and decimal numbers -/

/-- A power is a quotient of powers with natural exponents. -/
theorem zpow_mul_pow {a : Nat} (ha : a ≠ 0) (k : Int) :
    (a : Rat) ^ k * (a : Rat) ^ (-k).toNat = (a : Rat) ^ k.toNat := by
  rw [← zpow_natCast, ← zpow_natCast, ← zpow_add₀ (Nat.cast_ne_zero.mpr ha)]
  congr 1
  omega

section Comparison

variable (m n : Nat) (k e : Int)

/-- What clears the denominators of numbers with these exponents. -/
def denominator : Rat := 2 ^ (-k).toNat * 10 ^ (-e).toNat

theorem denominator_pos : 0 < denominator k e := by
  unfold denominator
  positivity

theorem binary_mul_denominator : (m : Rat) * 2 ^ k * denominator k e =
    ((m * Nat.pow 2 k.toNat * Nat.pow 10 (-e).toNat : Nat) : Rat) := by
  have h := zpow_mul_pow two_ne_zero k
  push_cast [Nat.pow_eq] at h ⊢
  rw [denominator, ← h]
  ring

theorem decimal_mul_denominator : (n : Rat) * 10 ^ e * denominator k e =
    ((n * Nat.pow 10 e.toNat * Nat.pow 2 (-k).toNat : Nat) : Rat) := by
  have h := zpow_mul_pow (a := 10) (by decide) e
  push_cast [Nat.pow_eq] at h ⊢
  rw [denominator, ← h]
  ring

theorem binary_le_decimal_iff : (m : Rat) * 2 ^ k ≤ n * 10 ^ e ↔
    m * Nat.pow 2 k.toNat * Nat.pow 10 (-e).toNat ≤
      n * Nat.pow 10 e.toNat * Nat.pow 2 (-k).toNat := by
  rw [← mul_le_mul_iff_left₀ (denominator_pos k e), binary_mul_denominator, decimal_mul_denominator,
    Nat.cast_le]

theorem decimal_le_binary_iff : (n : Rat) * 10 ^ e ≤ m * 2 ^ k ↔
    n * Nat.pow 10 e.toNat * Nat.pow 2 (-k).toNat ≤
      m * Nat.pow 2 k.toNat * Nat.pow 10 (-e).toNat := by
  rw [← mul_le_mul_iff_left₀ (denominator_pos k e), binary_mul_denominator, decimal_mul_denominator,
    Nat.cast_le]

end Comparison

/-! ## Rounding intervals -/

namespace Binary

/-- The numbers of the format: a significand of at most 53 bits, and of exactly 53 bits unless the
exponent is the least. -/
structure Regular (b : Binary) : Prop where
  lt : b.significand < Nat.pow 2 53
  exponent : -1074 ≤ b.exponent
  normal : b.exponent ≠ -1074 → Nat.pow 2 52 ≤ b.significand

/-- Decoded bits are a number of the format. -/
theorem regular_ofBits (bits : UInt64) : (ofBits bits).Regular := by
  have h₅₂ : Nat.pow 2 52 = 4503599627370496 := rfl
  have h₅₃ : Nat.pow 2 53 = 9007199254740992 := rfl
  have hfraction : bits.toNat % Nat.pow 2 52 < Nat.pow 2 52 := Nat.mod_lt _ (by decide)
  unfold ofBits
  dsimp only
  split
  · exact ⟨by dsimp only; omega, le_refl _, fun h => absurd rfl h⟩
  · exact ⟨by dsimp only; omega, by dsimp only; omega, fun _ => Nat.le_add_right _ _⟩

variable (b : Binary)

/-- The value. -/
def toRat : Rat := b.significand * 2 ^ b.exponent

/-- Four times the significand of the lower end of the rounding interval. -/
def lowerQuarters : Nat := 4 * b.significand - if b.startsBinade then 1 else 2

/-- The lower end of the rounding interval. -/
def lower : Rat := b.lowerQuarters * 2 ^ (b.exponent - 2)

/-- The upper end of the rounding interval. -/
def upper : Rat := ((4 * b.significand + 2 : Nat) : Rat) * 2 ^ (b.exponent - 2)

/-- A number rounds to this one: it lies in the interval, whose ends belong to it if the significand
is even. -/
def Rounds (q : Rat) : Prop :=
  if b.significand % 2 = 0 then b.lower ≤ q ∧ q ≤ b.upper else b.lower < q ∧ q < b.upper

theorem toRat_eq : b.toRat = ((4 * b.significand : Nat) : Rat) * 2 ^ (b.exponent - 2) := by
  rw [toRat, zpow_sub₀ two_ne_zero]
  push_cast
  ring

end Binary

/-- The value of a decimal. -/
def Decimal.toRat (d : Decimal) : Rat := d.coefficient * 10 ^ d.exponent

/-- The check of an interval decides which decimals round to the number. -/
theorem Interval.holds_iff (b : Binary) (n : Nat) (e : Int) :
    (Interval.ofBinary b).holds n e = true ↔ b.Rounds (n * 10 ^ e) := by
  have hbelow : (ofBinary b).below = b.lowerQuarters * Nat.pow 2 (b.exponent - 2).toNat := rfl
  have habove : (ofBinary b).above =
      (4 * b.significand + 2) * Nat.pow 2 (b.exponent - 2).toNat := rfl
  have hunit : (ofBinary b).unit = Nat.pow 2 (-(b.exponent - 2)).toNat := by
    rw [neg_sub]
    rfl
  have hclosed : (ofBinary b).closed = true ↔ b.significand % 2 = 0 := beq_iff_eq
  rw [holds, hbelow, habove, hunit, Binary.Rounds, Binary.lower, Binary.upper]
  by_cases heven : b.significand % 2 = 0
  · rw [if_pos heven, if_pos (hclosed.mpr heven), Bool.and_eq_true, decide_eq_true_eq,
      decide_eq_true_eq, binary_le_decimal_iff, decimal_le_binary_iff]
  · rw [if_neg heven, if_neg (mt hclosed.mp heven), Bool.and_eq_true, decide_eq_true_eq,
      decide_eq_true_eq, ← not_le, ← not_le, ← not_le, ← not_le, decimal_le_binary_iff,
      binary_le_decimal_iff]

namespace Binary

/-! ## What is near -/

/-- Zero rounds to zero. -/
theorem rounds_zero {b : Binary} (hb : b.significand = 0) : b.Rounds 0 := by
  have hlower : b.lower = 0 := by
    rw [lower, lowerQuarters, hb, Nat.mul_zero, Nat.zero_sub, Nat.cast_zero, zero_mul]
  rw [Rounds, if_pos (by rw [hb]), hlower, upper]
  exact ⟨le_refl 0, by positivity⟩

/-- What differs from a number in the seventeenth place at most, by half of a unit, rounds to it. -/
theorem rounds_of_near {b : Binary} (h : b.Regular) (hb : b.significand ≠ 0) {q : Rat}
    (hnear : 2 * 10 ^ 16 * |q - b.toRat| ≤ b.toRat) : b.Rounds q := by
  have hpow : (0 : Rat) < 2 ^ (b.exponent - 2) := by positivity
  have hbelow : (b.lowerQuarters : Rat) = 4 * b.significand - if b.startsBinade then 1 else 2 := by
    rw [lowerQuarters, Nat.cast_sub (by split <;> omega)]
    push_cast
    rfl
  have hvalue := b.toRat_eq
  have hlt : (b.significand : Rat) ≤ 9007199254740992 := by exact_mod_cast h.lt.le
  have hbound := mul_le_mul_of_nonneg_right hlt hpow.le
  have hgoal : b.lower < q ∧ q < b.upper := by
    rw [lower, upper, hbelow]
    push_cast at hvalue ⊢
    have habs := abs_le.mp (le_refl |q - b.toRat|)
    by_cases hstarts : b.startsBinade = true
    · -- the least significand of a binade is half as large as the bound
      have hsignificand : b.significand = 4503599627370496 := by
        rw [startsBinade, Bool.and_eq_true, beq_iff_eq] at hstarts
        exact hstarts.1
      rw [if_pos hstarts]
      rw [hsignificand] at hvalue ⊢
      constructor <;> push_cast at hvalue ⊢ <;> linarith
    · rw [if_neg hstarts]
      constructor <;> linarith
  rw [Rounds]
  split
  · exact ⟨hgoal.1.le, hgoal.2.le⟩
  · exact hgoal

/-! ## The order of the intervals -/

variable {b b' : Binary} {q : Rat}

/-- The order of the numbers of the format. -/
def Before (b b' : Binary) : Prop :=
  b.exponent < b'.exponent ∨ b.exponent = b'.exponent ∧ b.significand < b'.significand

/-- The upper end of an interval is not above the lower end of a later one, and below it if the ends
belong to both. -/
theorem upper_le_lower (h : b.Regular) (h' : b'.Regular) (hbefore : b.Before b') :
    b.upper ≤ b'.lower ∧
      (b.significand % 2 = 0 → b'.significand % 2 = 0 → b.upper < b'.lower) := by
  have hpow : (0 : Rat) < 2 ^ (b.exponent - 2) := by positivity
  obtain ⟨d, hd⟩ : ∃ d : Nat, b'.exponent = b.exponent + d :=
    Int.le.dest (by rcases hbefore with h | h <;> omega) |>.imp fun _ => Eq.symm
  have hlower : b'.lower = ((b'.lowerQuarters * 2 ^ d : Nat) : Rat) * 2 ^ (b.exponent - 2) := by
    rw [lower, hd, show b.exponent + d - 2 = d + (b.exponent - 2) by ring, zpow_add₀ two_ne_zero,
      zpow_natCast]
    push_cast
    ring
  rw [hlower, upper, mul_le_mul_iff_left₀ hpow, mul_lt_mul_iff_left₀ hpow, Nat.cast_le, Nat.cast_lt]
  have h₅₂ : Nat.pow 2 52 = 4503599627370496 := rfl
  have h₅₃ : Nat.pow 2 53 = 9007199254740992 := rfl
  have hlt := h.lt
  have hnormal := h.normal
  have hnormal' := h'.normal
  have hexponent := h.exponent
  have hstarts : b'.startsBinade = true ↔ b'.significand = Nat.pow 2 52 ∧ b'.exponent ≠ -1074 := by
    simp [startsBinade]
  unfold lowerQuarters
  rcases hbefore with hless | ⟨hequal, hless⟩
  · -- the later number has all 53 bits, and its interval reaches down by a quarter at least
    have hfour : 18014398509481983 ≤ 4 * b'.significand - if b'.startsBinade then 1 else 2 := by
      split
      · omega
      · rename_i hne
        have := mt hstarts.mpr hne
        omega
    have htwo : 2 ≤ 2 ^ d := by
      obtain ⟨d, rfl⟩ := Nat.exists_eq_succ_of_ne_zero (show d ≠ 0 by omega)
      have := Nat.one_le_two_pow (n := d)
      rw [Nat.pow_succ]
      omega
    have hmul := Nat.mul_le_mul hfour htwo
    omega
  · obtain rfl : d = 0 := by omega
    have hne : ¬ b'.startsBinade = true := by
      rw [hstarts]
      omega
    rw [if_neg hne, Nat.pow_zero, Nat.mul_one]
    omega

theorem Rounds.le_upper (h : b.Rounds q) : q ≤ b.upper ∧ (b.significand % 2 ≠ 0 → q < b.upper) := by
  unfold Rounds at h
  split at h
  · exact ⟨h.2, fun hne => absurd ‹_› hne⟩
  · exact ⟨h.2.le, fun _ => h.2⟩

theorem Rounds.lower_le (h : b.Rounds q) : b.lower ≤ q ∧ (b.significand % 2 ≠ 0 → b.lower < q) := by
  unfold Rounds at h
  split at h
  · exact ⟨h.1, fun hne => absurd ‹_› hne⟩
  · exact ⟨h.1.le, fun _ => h.1⟩

theorem not_before (h : b.Regular) (h' : b'.Regular) (hq : b.Rounds q) (hq' : b'.Rounds q) :
    ¬ b.Before b' := by
  intro hbefore
  obtain ⟨hle, hlt⟩ := upper_le_lower h h' hbefore
  obtain ⟨hupper, hupper_lt⟩ := hq.le_upper
  obtain ⟨hlower, hlower_lt⟩ := hq'.lower_le
  by_cases heven : b.significand % 2 = 0
  · by_cases heven' : b'.significand % 2 = 0
    · linarith [hlt heven heven']
    · linarith [hlower_lt heven']
  · linarith [hupper_lt heven]

/-- **No number rounds two ways.** -/
theorem eq_of_rounds (h : b.Regular) (h' : b'.Regular) (hq : b.Rounds q) (hq' : b'.Rounds q) :
    b = b' := by
  have hbefore := not_before h h' hq hq'
  have hafter := not_before h' h hq' hq
  unfold Before at hbefore hafter
  obtain ⟨significand, exponent⟩ := b
  obtain ⟨significand', exponent'⟩ := b'
  rw [mk.injEq]
  dsimp only at hbefore hafter
  omega

end Binary

end PiecewiseGlyph
