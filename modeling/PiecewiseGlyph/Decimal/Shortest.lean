/-!
# The shortest decimal that reads back

A binary64 number stands for an interval of real numbers, those that round to it. Among the decimals
in that interval we choose one with the fewest digits, and of those the nearest to the number; a
`Tie` chooses between two that are equally near.

* `Binary.ofBits` decodes a finite number into `significand * 2 ^ exponent`;
* `Interval.ofBinary` is its rounding interval, as three integers over one denominator;
* `Tie.neighbours` has the two integers around a quotient, the one to prefer first;
* `Interval.shortest` makes the choice: a point of some decimal grid lies in the interval exactly if
  one of the number's two neighbours on that grid does, so only these two are tried.
-/

namespace PiecewiseGlyph

/-- The number `significand * 2 ^ exponent`. -/
structure Binary where
  significand : Nat
  exponent : Int
  deriving DecidableEq, Repr

/-- The magnitude of the finite binary64 number with these bits. -/
def Binary.ofBits (bits : UInt64) : Binary :=
  let fraction : Nat := bits.toNat % Nat.pow 2 52
  let biased : Nat := bits.toNat / Nat.pow 2 52 % Nat.pow 2 11
  if biased = 0 then ⟨fraction, -1074⟩ else ⟨Nat.pow 2 52 + fraction, (biased : Int) - 1075⟩

/-- Is this the least significand of a binade, whose lower neighbour is at half the distance? -/
def Binary.startsBinade (b : Binary) : Bool := b.significand == Nat.pow 2 52 && b.exponent != -1074

/-- The decimal number `coefficient * 10 ^ exponent`. -/
structure Decimal where
  coefficient : Nat
  exponent : Int
  deriving DecidableEq, Repr

namespace Decimal

/-- The digits of the coefficient, without leading zeros. -/
def digits (d : Decimal) : List Char := Nat.toDigits 10 d.coefficient

/-- The exponent of the leading digit. -/
def leadingExponent (d : Decimal) : Int := d.digits.length - 1 + d.exponent

/-- Move the zeros at the end of the coefficient into the exponent. -/
def trim (d : Decimal) : Decimal :=
  if h : d.coefficient ≠ 0 ∧ d.coefficient % 10 = 0 then
    trim ⟨d.coefficient / 10, d.exponent + 1⟩
  else d
  termination_by d.coefficient
  decreasing_by have := h.1; omega

end Decimal

/-- The choice between two equally near decimals. -/
inductive Tie
  /-- The larger one. -/
  | toLarger
  /-- The one with an even last digit. -/
  | toEven
  deriving DecidableEq, Repr

/-- Is `count + 1` chosen before `count`, if what is above `count` compares so with one half? -/
def Tie.prefersUpper (tie : Tie) (count : Nat) : Ordering → Bool
  | .lt => false
  | .gt => true
  | .eq => match tie with
    | toLarger => true
    | toEven => count % 2 == 1

/-- The integers below and above `value / step`, the one to choose first. -/
def Tie.neighbours (tie : Tie) (value step : Nat) : List Nat :=
  let count := value / step
  if tie.prefersUpper count (compare (2 * (value % step)) step) then [count + 1, count]
  else [count, count + 1]

/-- A tie rule orders the two neighbours and leaves out neither. -/
theorem Tie.mem_neighbours {tie : Tie} {value step n : Nat} :
    n ∈ tie.neighbours value step ↔ n = value / step ∨ n = value / step + 1 := by
  unfold neighbours
  dsimp only
  split
  · simp only [List.mem_cons, List.not_mem_nil, or_false]
    exact Or.comm
  · simp only [List.mem_cons, List.not_mem_nil, or_false]

/-- The reals from `below` to `above` around `value`, all in units of `1 / unit`. -/
structure Interval where
  below : Nat
  value : Nat
  above : Nat
  unit : Nat
  /-- Do the two ends belong to it? -/
  closed : Bool
  deriving DecidableEq, Repr

namespace Interval

/-- The reals that round to a number: half way to its neighbours, the ends if it is even. -/
def ofBinary (b : Binary) : Interval :=
  let scale := Nat.pow 2 (b.exponent - 2).toNat
  { below := (4 * b.significand - if b.startsBinade then 1 else 2) * scale
    value := 4 * b.significand * scale
    above := (4 * b.significand + 2) * scale
    unit := Nat.pow 2 (2 - b.exponent).toNat
    closed := b.significand % 2 == 0 }

/-- Does `count * 10 ^ exponent` lie in the interval? -/
def holds (i : Interval) (count : Nat) (exponent : Int) : Bool :=
  let point := count * Nat.pow 10 exponent.toNat * i.unit
  let below := i.below * Nat.pow 10 (-exponent).toNat
  let above := i.above * Nat.pow 10 (-exponent).toNat
  if i.closed then below ≤ point && point ≤ above else below < point && point < above

/-- The exponent of the value's leading decimal digit. -/
def leadingExponent (i : Interval) : Int :=
  if i.unit ≤ i.value then (Nat.toDigits 10 (i.value / i.unit)).length - 1
  else -((Nat.toDigits 10 ((i.unit + i.value - 1) / i.value - 1)).length : Int)

/-- The better of the value's two neighbours on the grid of step `10 ^ exponent`, if one fits. -/
def onGrid? (i : Interval) (tie : Tie) (exponent : Int) : Option Decimal :=
  let value := i.value * Nat.pow 10 (-exponent).toNat
  let step := Nat.pow 10 exponent.toNat * i.unit
  ((tie.neighbours value step).find? (i.holds · exponent)).map (⟨·, exponent⟩)

/-- The first grid with a point in the interval, from one digit on; seventeen always suffice. -/
def shortest (i : Interval) (tie : Tie) : Decimal :=
  let lead := i.leadingExponent
  match (List.range 17).findSome? fun (n : Nat) => i.onGrid? tie (lead - n) with
  | some d => d.trim
  | none => ⟨0, 0⟩

end Interval

/-- The shortest decimal of a finite binary64 number, up to its sign. -/
def Decimal.ofFloat (tie : Tie) (x : Float) : Decimal :=
  let b := Binary.ofBits x.toBits
  if b.significand = 0 then ⟨0, 0⟩ else (Interval.ofBinary b).shortest tie

end PiecewiseGlyph
