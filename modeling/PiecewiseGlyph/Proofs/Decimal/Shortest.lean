import PiecewiseGlyph.Proofs.Decimal.Rounding

/-!
# The shortest decimal rounds back

* `Interval.pow_leadingExponent_le`: the leading digit of a value is where it is said to be;
* `Interval.onGrid?_isSome`: a grid whose step is so much smaller than the value has a point that
  rounds to the value;
* `Interval.rounds_shortest`: so the search for the shortest decimal finds one, and it rounds to the
  number.
-/

namespace PiecewiseGlyph

/-- Moving zeros into the exponent keeps the value. -/
theorem Decimal.toRat_trim (d : Decimal) : d.trim.toRat = d.toRat := by
  fun_induction trim d with
  | case1 d h ih =>
    have hten : (d.coefficient : Rat) = ((d.coefficient / 10 : Nat) : Rat) * 10 := by
      exact_mod_cast (Nat.div_mul_cancel (Nat.dvd_of_mod_eq_zero h.2)).symm
    rw [ih, toRat, toRat, hten, zpow_add₀ (by norm_num), zpow_one]
    ring
  | case2 d h => rfl

namespace Interval

variable {b : Binary} {e : Int}

/-! ## The leading digit -/

theorem value_ofBinary (b : Binary) :
    (ofBinary b).value = 4 * b.significand * Nat.pow 2 (b.exponent - 2).toNat := rfl

theorem unit_ofBinary (b : Binary) : (ofBinary b).unit = Nat.pow 2 (-(b.exponent - 2)).toNat := by
  rw [neg_sub]
  rfl

/-- A decimal compared with the value. -/
theorem decimal_le_toRat_iff (n : Nat) :
    (n : Rat) * 10 ^ e ≤ b.toRat ↔
      n * Nat.pow 10 e.toNat * (ofBinary b).unit ≤ (ofBinary b).value * Nat.pow 10 (-e).toNat := by
  rw [b.toRat_eq, decimal_le_binary_iff, value_ofBinary, unit_ofBinary]

/-- The whole part of a quotient has its first digit where the value has it. -/
theorem pow_mul_le {value unit : Nat} (hunit : 0 < unit) (hle : unit ≤ value) :
    10 ^ ((Nat.toDigits 10 (value / unit)).length - 1) * unit ≤ value := by
  refine (Nat.le_div_iff_mul_le hunit).mp ?_
  generalize hn : (Nat.toDigits 10 (value / unit)).length - 1 = n
  rcases Nat.eq_zero_or_pos n with rfl | hpos
  · exact Nat.div_pos hle hunit
  · rw [← Nat.not_lt, ← Nat.length_toDigits_le_iff (by decide) hpos]
    omega

/-- A quotient below one is not below the power of ten that the digits of its inverse give. The
inverse is rounded up and lessened by one, so that powers of ten have no digit too many. -/
theorem le_mul_pow {value unit : Nat} (hvalue : 0 < value) :
    unit ≤ value * 10 ^ (Nat.toDigits 10 ((unit + value - 1) / value - 1)).length := by
  have hlength := Nat.length_toDigits_pos (b := 10) (n := (unit + value - 1) / value - 1)
  have hpow := (Nat.length_toDigits_le_iff (by decide) hlength).mp (le_refl _)
  generalize (Nat.toDigits 10 ((unit + value - 1) / value - 1)).length = n at hpow ⊢
  have hdiv : (unit + value - 1) / value < 10 ^ n + 1 := by omega
  rw [Nat.div_lt_iff_lt_mul hvalue, Nat.add_mul] at hdiv
  rw [Nat.mul_comm value]
  omega

/-- The leading digit stands for a part of the value. -/
theorem pow_leadingExponent_le (hb : b.significand ≠ 0) :
    (10 : Rat) ^ (ofBinary b).leadingExponent ≤ b.toRat := by
  have hunit : 0 < (ofBinary b).unit := Nat.pow_pos (by decide)
  have hvalue : 0 < (ofBinary b).value := Nat.mul_pos (by omega) (Nat.pow_pos (by decide))
  have hgoal := decimal_le_toRat_iff (b := b) (e := (ofBinary b).leadingExponent) 1
  rw [Nat.cast_one, one_mul, Nat.one_mul, Nat.pow_eq, Nat.pow_eq] at hgoal
  rw [hgoal, leadingExponent]
  split
  · rename_i hle
    have hexponent : ∀ n : Nat, 0 < n →
        ((n : Int) - 1).toNat = n - 1 ∧ (-((n : Int) - 1)).toNat = 0 := by
      omega
    obtain ⟨h₁, h₂⟩ := hexponent _ Nat.length_toDigits_pos
    rw [h₁, h₂, Nat.pow_zero, Nat.mul_one]
    exact pow_mul_le hunit hle
  · rw [neg_neg, Int.toNat_natCast, Int.toNat_neg_natCast, Nat.pow_zero, Nat.one_mul]
    exact le_mul_pow hvalue

/-! ## A fine grid -/

/-- A grid whose step is less than the value by sixteen places has a point in the interval: one of
the two neighbours is at most half a step away. -/
theorem onGrid?_isSome (tie : Tie) (hregular : b.Regular) (hb : b.significand ≠ 0)
    (hfine : (10 : Rat) ^ 16 * 10 ^ e ≤ b.toRat) :
    ((ofBinary b).onGrid? tie e).isSome = true := by
  have hstep : 0 < Nat.pow 10 e.toNat * (ofBinary b).unit :=
    Nat.mul_pos (Nat.pow_pos (by decide)) (Nat.pow_pos (by decide))
  rw [onGrid?, Option.isSome_map, List.find?_isSome]
  set count := (ofBinary b).value * Nat.pow 10 (-e).toNat / (Nat.pow 10 e.toNat * (ofBinary b).unit)
    with hcount
  have hbelow : (count : Rat) * 10 ^ e ≤ b.toRat := by
    rw [decimal_le_toRat_iff, Nat.mul_assoc]
    exact Nat.div_mul_le_self _ _
  have habove : b.toRat < ((count + 1 : Nat) : Rat) * 10 ^ e := by
    rw [← not_le, decimal_le_toRat_iff, Nat.mul_assoc, Nat.not_le]
    exact Nat.lt_mul_of_div_lt (Nat.lt_succ_self _) hstep
  push_cast at habove
  by_cases hnear : 2 * (b.toRat - count * 10 ^ e) ≤ 10 ^ e
  · refine ⟨count, Tie.mem_neighbours.mpr (.inl hcount), (holds_iff b count e).mpr ?_⟩
    refine Binary.rounds_of_near hregular hb ?_
    rw [abs_of_nonpos (by linarith)]
    linarith
  · refine ⟨count + 1, Tie.mem_neighbours.mpr (.inr (by rw [hcount])), (holds_iff b _ e).mpr ?_⟩
    refine Binary.rounds_of_near hregular hb ?_
    push_cast
    rw [abs_of_nonneg (by linarith)]
    linarith

/-! ## The search -/

/-- What is found on a grid rounds to the number. -/
theorem rounds_of_onGrid? {tie : Tie} {d : Decimal} (h : (ofBinary b).onGrid? tie e = some d) :
    b.Rounds d.toRat := by
  obtain ⟨n, hn, rfl⟩ := Option.map_eq_some_iff.mp h
  have hholds := List.find?_some (p := fun n => (ofBinary b).holds n e) hn
  exact (holds_iff b n e).mp hholds

/-- **The shortest decimal rounds to the number.** -/
theorem rounds_shortest (tie : Tie) (hregular : b.Regular) (hb : b.significand ≠ 0) :
    b.Rounds ((ofBinary b).shortest tie).toRat := by
  rw [shortest]
  cases hfind : (List.range 17).findSome? fun (n : Nat) =>
      (ofBinary b).onGrid? tie ((ofBinary b).leadingExponent - n) with
  | some d =>
    obtain ⟨n, -, hn⟩ := List.exists_of_findSome?_eq_some hfind
    rw [Decimal.toRat_trim]
    exact rounds_of_onGrid? hn
  | none =>
    have hnone := List.findSome?_eq_none_iff.mp hfind 16 (by decide)
    have hfine : (10 : Rat) ^ 16 * 10 ^ ((ofBinary b).leadingExponent - (16 : Nat)) ≤ b.toRat := by
      rw [← zpow_natCast, ← zpow_add₀ (by norm_num), add_sub_cancel]
      exact pow_leadingExponent_le hb
    have hsome := onGrid?_isSome tie hregular hb hfine
    rw [hnone] at hsome
    cases hsome

end Interval

/-- The decimal of a number rounds to the number, up to the sign. -/
theorem Decimal.rounds_ofFloat (tie : Tie) (x : Float) :
    (Binary.ofBits x.toBits).Rounds (ofFloat tie x).toRat := by
  rw [ofFloat]
  split
  · rename_i hzero
    rw [toRat, Nat.cast_zero, zero_mul]
    exact Binary.rounds_zero hzero
  · exact Interval.rounds_shortest tie (Binary.regular_ofBits x.toBits) ‹_›

end PiecewiseGlyph
