import PiecewiseGlyph.Decimal.Numeral
import PiecewiseGlyph.Json.Reader

/-!
# Numbers

A number is an optional minus, a whole part without needless zeros, and optionally a fraction and a
power of ten. Its value is found in two roundings: as many leading digits as fit into 64 bits are
taken as a natural number, and that number is scaled by a power of ten.

* `scanNumber` reads the parts of a number; what it reports at the end of the text is a parameter;
* `NumberParts.value?` is the value, which a number too large does not have;
* `readNumber` puts both together, and `NumberParts.natural?` tells counts from other numbers.
-/

namespace PiecewiseGlyph.Json

/-- The parts of a number. -/
structure NumberParts where
  negative : Bool
  whole : List Char
  fraction : Option (List Char)
  power : Option Int
  deriving DecidableEq, Repr

/-! ## Reading the parts -/

/-- One or more digits. -/
def scanDigits (atEnd : Fault) (cs : List Char) : Except Fault (List Char × List Char) :=
  match cs with
  | [] => .error atEnd
  | c :: _ =>
    if c.isDigit then .ok (cs.takeWhile Char.isDigit, cs.dropWhile Char.isDigit)
    else .error .malformed

/-- The whole part: a zero that no digit follows, or digits from a digit other than zero. -/
def scanWhole (atEnd : Fault) (cs : List Char) : Except Fault (List Char × List Char) := do
  let (digits, rest) ← scanDigits atEnd cs
  if digits.head? = some '0' ∧ digits.length ≠ 1 then throw .malformed else return (digits, rest)

/-- An optional fraction. -/
def scanFraction (atEnd : Fault) (cs : List Char) :
    Except Fault (Option (List Char) × List Char) :=
  match cs with
  | '.' :: cs => (scanDigits atEnd cs).map fun (digits, rest) => (some digits, rest)
  | cs => .ok (none, cs)

/-- An optional power of ten. -/
def scanPower (atEnd : Fault) (cs : List Char) : Except Fault (Option Int × List Char) :=
  match cs with
  | [] => .ok (none, [])
  | c :: cs =>
    if c = 'e' ∨ c = 'E' then
      let signed := Numeral.splitSign cs
      (scanDigits atEnd signed.2).map fun (digits, rest) =>
        let n : Int := Numeral.natOfDigits digits
        (some (if signed.1 then -n else n), rest)
    else .ok (none, c :: cs)

/-- An optional minus. -/
def scanMinus : List Char → Bool × List Char
  | '-' :: cs => (true, cs)
  | cs => (false, cs)

/-- The parts of a number. -/
def scanNumber (atEnd : Fault) (cs : List Char) : Except Fault (NumberParts × List Char) := do
  let signed := scanMinus cs
  let (whole, rest) ← scanWhole atEnd signed.2
  let (fraction, rest) ← scanFraction atEnd rest
  let (power, rest) ← scanPower atEnd rest
  return (⟨signed.1, whole, fraction, power⟩, rest)

/-! ## No reader grows -/

theorem length_of_scanDigits {atEnd : Fault} {cs digits rest : List Char}
    (h : scanDigits atEnd cs = .ok (digits, rest)) : rest.length < cs.length := by
  unfold scanDigits at h
  split at h
  · cases h
  · rename_i c cs
    split at h
    · rename_i hc
      obtain ⟨-, rfl⟩ := Prod.mk.inj (Except.ok.inj h)
      have := (List.dropWhile_sublist Char.isDigit (l := cs)).length_le
      simp only [List.dropWhile_cons, hc, if_true, List.length_cons]; omega
    · cases h

theorem length_of_scanWhole {atEnd : Fault} {cs digits rest : List Char}
    (h : scanWhole atEnd cs = .ok (digits, rest)) : rest.length < cs.length := by
  obtain ⟨⟨digits', rest'⟩, hd, h⟩ := bind_eq_ok.mp h
  have := length_of_scanDigits hd
  dsimp only at h
  split at h
  · cases h
  · obtain ⟨-, rfl⟩ := Prod.mk.inj (Except.ok.inj h)
    exact this

theorem length_of_scanFraction {atEnd : Fault} {cs rest : List Char} {fraction : Option (List Char)}
    (h : scanFraction atEnd cs = .ok (fraction, rest)) : rest.length ≤ cs.length := by
  unfold scanFraction at h
  split at h
  · obtain ⟨⟨digits, rest'⟩, hd, h⟩ := map_eq_ok.mp h
    have := length_of_scanDigits hd
    obtain ⟨-, rfl⟩ := Prod.mk.inj h
    simp only [List.length_cons]; omega
  · obtain ⟨-, rfl⟩ := Prod.mk.inj (Except.ok.inj h)
    exact Nat.le_refl _

theorem length_splitSign_le (cs : List Char) : (Numeral.splitSign cs).2.length ≤ cs.length := by
  unfold Numeral.splitSign
  split <;> simp

theorem length_of_scanPower {atEnd : Fault} {cs rest : List Char} {power : Option Int}
    (h : scanPower atEnd cs = .ok (power, rest)) : rest.length ≤ cs.length := by
  unfold scanPower at h
  split at h
  · obtain ⟨-, rfl⟩ := Prod.mk.inj (Except.ok.inj h)
    exact Nat.le_refl _
  · rename_i c cs
    split at h
    · obtain ⟨⟨digits, rest'⟩, hd, h⟩ := map_eq_ok.mp h
      have := length_of_scanDigits hd
      have := length_splitSign_le cs
      obtain ⟨-, rfl⟩ := Prod.mk.inj h
      simp only [List.length_cons]; omega
    · obtain ⟨-, rfl⟩ := Prod.mk.inj (Except.ok.inj h)
      exact Nat.le_refl _

theorem length_of_scanNumber {atEnd : Fault} {cs rest : List Char} {parts : NumberParts}
    (h : scanNumber atEnd cs = .ok (parts, rest)) : rest.length < cs.length := by
  obtain ⟨⟨whole, r₁⟩, hw, h⟩ := bind_eq_ok.mp h
  obtain ⟨⟨fraction, r₂⟩, hf, h⟩ := bind_eq_ok.mp h
  obtain ⟨⟨power, r₃⟩, hp, h⟩ := bind_eq_ok.mp h
  have h₁ := length_of_scanWhole hw
  have h₂ := length_of_scanFraction hf
  have h₃ := length_of_scanPower hp
  obtain ⟨-, rfl⟩ := Prod.mk.inj (Except.ok.inj h)
  have h₀ : (scanMinus cs).2.length ≤ cs.length := by unfold scanMinus; split <;> simp
  omega

/-! ## The value -/

/-- The leading digits that fit into 64 bits when appended to `value`, and their number. -/
def fitDigits (value : Nat) : List Char → Nat × Nat
  | [] => (value, 0)
  | c :: cs =>
    let next := value * 10 + (c.toNat - '0'.toNat)
    if next < Nat.pow 2 64 then
      let (value, count) := fitDigits next cs
      (value, count + 1)
    else (value, 0)

/-- A power of ten as a binary64 number. -/
def powerOfTen (n : Nat) : Float := Float.ofScientific 1 false n

/-- Scale by a power of ten, in steps that stay in range; a number too large has no value. -/
def scale? (x : Float) (exponent : Int) : Option Float :=
  if exponent.natAbs ≤ 308 then
    if 0 ≤ exponent then
      let y := x * powerOfTen exponent.natAbs
      if y.isInf then none else some y
    else some (x / powerOfTen exponent.natAbs)
  else if x == 0 then some x
  else if 0 ≤ exponent then none
  else scale? (x / powerOfTen 308) (exponent + 308)
  termination_by exponent.natAbs
  decreasing_by omega

namespace NumberParts

/-- The value of a number. -/
def value? (n : NumberParts) : Option Float :=
  let fraction := n.fraction.getD []
  let (value, taken) := fitDigits 0 n.whole
  let (value, places) := fitDigits value fraction
  let exponent := ((n.whole.length - taken : Nat) : Int) - places + n.power.getD 0
  (scale? (Float.ofNat value) exponent).map fun x => if n.negative then -x else x

/-- A number without sign, fraction and power is a count. -/
def natural? (n : NumberParts) : Option Nat :=
  if n.negative ∨ n.fraction.isSome ∨ n.power.isSome then none
  else some (Numeral.natOfDigits n.whole)

end NumberParts

/-- Read a number and its value. -/
def readNumber : Reader Float := fun cs => do
  let (parts, rest) ← scanNumber .truncated cs
  match parts.value? with
  | some x => return (x, rest)
  | none => throw .malformed

theorem length_of_readNumber {cs rest : List Char} {x : Float}
    (h : readNumber cs = .ok (x, rest)) : rest.length < cs.length := by
  obtain ⟨⟨parts, rest'⟩, hs, h⟩ := bind_eq_ok.mp h
  have := length_of_scanNumber hs
  dsimp only at h
  split at h
  · obtain ⟨-, rfl⟩ := Prod.mk.inj (Except.ok.inj h)
    exact this
  · cases h

/-- Does a number start with this character? -/
def startsNumber (c : Char) : Bool := c == '-' || c.isDigit

end PiecewiseGlyph.Json
