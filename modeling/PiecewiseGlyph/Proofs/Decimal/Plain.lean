import Mathlib.Data.List.TakeDrop
import Mathlib.Tactic.IntervalCases
import PiecewiseGlyph.Decimal.Layout
import PiecewiseGlyph.Proofs.Decimal.Rounding
import PiecewiseGlyph.Scalar

/-!
# Plain decimals

A decimal in positional form is a row of digits, possibly with a point before the last of them. Read
as a numeral, it has the value of the decimal.

* `pointed` is the form, and `Denote` says what its digits denote;
* `Decimal.exists_pointed_eq` gives the digits of a decimal before and after the point;
* `Numeral.toRat?_read?_pointed` reads them back.
-/

namespace PiecewiseGlyph

/-! ## Digits -/

/-- A row of digits. -/
def IsDigits (cs : List Char) : Prop := ∀ c ∈ cs, c.isDigit = true

theorem IsDigits.append {cs ds : List Char} (h : IsDigits cs) (h' : IsDigits ds) :
    IsDigits (cs ++ ds) := fun c hc => (List.mem_append.mp hc).elim (h c) (h' c)

theorem isDigits_replicate (n : Nat) : IsDigits (List.replicate n '0') := fun c hc => by
  rw [List.eq_of_mem_replicate hc]
  rfl

theorem isDigits_digits (d : Decimal) : IsDigits d.digits := fun _ hc =>
  Nat.isDigit_of_mem_toDigits (by decide) (by decide) hc

/-- There are ten digits. -/
theorem mem_of_isDigit {c : Char} (h : c.isDigit = true) : c ∈ "0123456789".toList := by
  have h : decide (c.val ≥ '0'.val) && decide (c.val ≤ '9'.val) := h
  rw [Bool.and_eq_true, decide_eq_true_eq, decide_eq_true_eq] at h
  obtain ⟨hlow, hhigh⟩ := h
  have hlow : 48 ≤ c.toNat := hlow
  have hhigh : c.toNat ≤ 57 := hhigh
  rw [← Char.ofNat_toNat c]
  interval_cases c.toNat <;> decide

/-- Zeros in front add nothing. -/
theorem natOfDigits_replicate_append (n : Nat) (cs : List Char) :
    Numeral.natOfDigits (List.replicate n '0' ++ cs) = Numeral.natOfDigits cs := by
  rw [Numeral.natOfDigits, Nat.ofDigitChars_append, Nat.ofDigitChars_replicate_zero, Nat.mul_zero]
  rfl

/-- Each zero at the end multiplies by ten. -/
theorem natOfDigits_append_replicate (cs : List Char) (n : Nat) :
    Numeral.natOfDigits (cs ++ List.replicate n '0') = 10 ^ n * Numeral.natOfDigits cs := by
  rw [Numeral.natOfDigits, Nat.ofDigitChars_append, Nat.ofDigitChars_replicate_zero]
  rfl

theorem natOfDigits_digits (d : Decimal) : Numeral.natOfDigits d.digits = d.coefficient :=
  Nat.ofDigitChars_ten_toDigits

/-! ## The positional form -/

/-- Digits, with a point before those of the fraction if there are any. -/
def pointed (whole fraction : List Char) : List Char :=
  whole ++ if fraction = [] then [] else '.' :: fraction

/-- What digits before and after a point say. -/
structure Denote (whole fraction : List Char) (q : Rat) : Prop where
  nonempty : whole ≠ []
  digits : IsDigits (whole ++ fraction)
  value : (Numeral.natOfDigits (whole ++ fraction) : Rat) * 10 ^ (-(fraction.length : Int)) = q

namespace Decimal

variable {d : Decimal}

theorem digits_ne_nil (d : Decimal) : d.digits ≠ [] := Nat.toDigits_ne_nil

/-- Zeros fill a whole number up. -/
theorem denote_of_nonneg (h : 0 ≤ d.exponent) :
    Denote (d.digits ++ List.replicate d.exponent.toNat '0') [] d.toRat where
  nonempty := List.append_ne_nil_of_left_ne_nil d.digits_ne_nil _
  digits := by
    rw [List.append_nil]
    exact (isDigits_digits d).append (isDigits_replicate _)
  value := by
    obtain ⟨n, hn⟩ := Int.eq_ofNat_of_zero_le h
    rw [List.append_nil, natOfDigits_append_replicate, natOfDigits_digits, toRat, hn]
    simp [mul_comm]

/-- The point stands among the digits. -/
theorem denote_of_lt {n : Nat} (hn : (n : Int) = -d.exponent) (hlt : n < d.digits.length) :
    Denote (d.digits.take (d.digits.length - n)) (d.digits.drop (d.digits.length - n)) d.toRat where
  nonempty := mt List.take_eq_nil_iff.mp (not_or.mpr ⟨by omega, d.digits_ne_nil⟩)
  digits := by
    rw [List.take_append_drop]
    exact isDigits_digits d
  value := by
    have hlength : d.digits.length - (d.digits.length - n) = n := by omega
    rw [List.take_append_drop, natOfDigits_digits, List.length_drop, hlength, hn, neg_neg, toRat]

/-- Zeros stand between the point and the digits. -/
theorem denote_of_le {n : Nat} (hn : (n : Int) = -d.exponent) (hle : d.digits.length ≤ n) :
    Denote ['0'] (List.replicate (n - d.digits.length) '0' ++ d.digits) d.toRat where
  nonempty := List.cons_ne_nil _ _
  digits := (isDigits_replicate 1).append ((isDigits_replicate _).append (isDigits_digits d))
  value := by
    have hzero : ['0'] = List.replicate 1 '0' := rfl
    have hlength : n - d.digits.length + d.digits.length = n := by omega
    rw [hzero, natOfDigits_replicate_append, natOfDigits_replicate_append, natOfDigits_digits,
      List.length_append, List.length_replicate, hlength, hn, neg_neg, toRat]

/-- The digits of the positional form denote the decimal. -/
theorem exists_pointed_eq (d : Decimal) :
    ∃ whole fraction, (d.positional "").toList = pointed whole fraction ∧
      Denote whole fraction d.toRat := by
  unfold positional
  dsimp only
  split
  · rename_i hexponent
    refine ⟨_, _, ?_, denote_of_nonneg hexponent⟩
    simp [pointed]
  · rename_i hexponent
    have hplaces : (((-d.exponent).toNat : Nat) : Int) = -d.exponent := by omega
    split
    · rename_i hlt
      refine ⟨_, _, ?_, denote_of_lt hplaces hlt⟩
      have hfraction : d.digits.drop (d.digits.length - (-d.exponent).toNat) ≠ [] :=
        mt List.drop_eq_nil_iff.mp (by omega)
      rw [pointed, if_neg hfraction, List.splitAt_eq]
      simp
    · rename_i hge
      refine ⟨_, _, ?_, denote_of_le hplaces (Nat.not_lt.mp hge)⟩
      rw [pointed, if_neg (List.append_ne_nil_of_right_ne_nil _ d.digits_ne_nil)]
      simp

end Decimal

/-! ## Reading -/

namespace Numeral

variable {whole fraction : List Char} {q : Rat}

/-- Digits are taken together. -/
theorem span_append {cs rest : List Char} (hcs : IsDigits cs)
    (hrest : ∀ c ∈ rest.head?, c.isDigit = false) :
    (cs ++ rest).span Char.isDigit = (cs, rest) := by
  rw [List.span_eq_takeWhile_dropWhile, List.takeWhile_append_of_pos hcs,
    List.dropWhile_append_of_pos hcs]
  cases rest with
  | nil => simp
  | cons c rest => simp [hrest c rfl]

theorem readMagnitude?_pointed (h : Denote whole fraction q) :
    readMagnitude? (pointed whole fraction) =
      some (natOfDigits (whole ++ fraction), -(fraction.length : Int)) := by
  have hwhole : IsDigits whole := fun c hc => h.digits c (List.mem_append_left _ hc)
  have hfraction : IsDigits fraction := fun c hc => h.digits c (List.mem_append_right _ hc)
  have hempty : (whole ++ fraction).isEmpty = false := by simp [h.nonempty]
  rw [readMagnitude?, pointed]
  by_cases hnil : fraction = []
  · subst hnil
    rw [if_pos rfl, span_append hwhole (by simp)]
    simp only [splitFraction, hempty]
    rfl
  · rw [if_neg hnil, span_append hwhole (by rintro c ⟨⟩; rfl)]
    have hspan : fraction.span Char.isDigit = (fraction, []) := by
      have hspan := @span_append fraction [] hfraction (by simp)
      rwa [List.append_nil] at hspan
    simp only [splitFraction, hspan, hempty]
    simp [readPower?]

/-- A text that begins with a digit is not a word. -/
theorem map_toLower_ne {c : Char} (hc : c.isDigit = true) (cs : List Char) {word : List Char}
    (hword : word.head?.any Char.isDigit = false) : (c :: cs).map Char.toLower ≠ word := by
  rintro rfl
  have hlower : "0123456789".toList.all (fun d => d.toLower.isDigit) = true := by decide
  have h := List.all_eq_true.mp hlower c (mem_of_isDigit hc)
  simp [h] at hword

/-- A sign that is not there is not taken off. -/
theorem splitSign_append (negative : Bool) {c : Char} (hc : c.isDigit = true) (cs : List Char) :
    splitSign ((if negative then ['-'] else []) ++ c :: cs) = (negative, c :: cs) := by
  cases negative with
  | true => rfl
  | false =>
    change splitSign (c :: cs) = (false, c :: cs)
    unfold splitSign
    split
    · rename_i hminus
      obtain ⟨rfl, -⟩ := List.cons.inj hminus
      exact absurd hc (by decide)
    · rename_i hplus
      obtain ⟨rfl, -⟩ := List.cons.inj hplus
      exact absurd hc (by decide)
    · rfl

/-- Digits with a point are read as what they denote, with or without a minus. -/
theorem toRat?_read?_pointed (negative : Bool) (h : Denote whole fraction q) :
    (read? ((if negative then ['-'] else []) ++ pointed whole fraction)).bind toRat? =
      some (if negative then -q else q) := by
  obtain ⟨c, cs, hcons⟩ := List.exists_cons_of_ne_nil h.nonempty
  have hc : c.isDigit = true := h.digits c (by rw [hcons]; exact List.mem_cons_self)
  have hpointed : pointed whole fraction =
      c :: (cs ++ if fraction = [] then [] else '.' :: fraction) := by
    rw [pointed, hcons, List.cons_append]
  have hsign : splitSign ((if negative then ['-'] else []) ++ pointed whole fraction) =
      (negative, pointed whole fraction) := by
    rw [hpointed]
    exact splitSign_append negative hc _
  have hword : ∀ {word : List Char}, word.head?.any Char.isDigit = false →
      (pointed whole fraction).map Char.toLower ≠ word := by
    rw [hpointed]
    exact map_toLower_ne hc _
  have hwords : ¬ (decide ((pointed whole fraction).map Char.toLower = "inf".toList) ||
      decide ((pointed whole fraction).map Char.toLower = "infinity".toList)) = true := by
    rw [Bool.or_eq_true, decide_eq_true_eq, decide_eq_true_eq]
    exact not_or.mpr ⟨hword (by decide), hword (by decide)⟩
  rw [read?, hsign]
  dsimp only
  rw [if_neg hwords, if_neg (hword (by decide)), readMagnitude?_pointed h, Option.map_some,
    Option.bind_some, toRat?, h.value]

end Numeral

end PiecewiseGlyph
