import PiecewiseGlyph.Formula.Piecewise
import PiecewiseGlyph.Text.Search
import PiecewiseGlyph.Text.Split

/-!
# Reading formulas

A written formula is read character by character, without knowing which function wrote it. How a
number is read is left open.

* `Argument`, `Expression`, `Branch` and `Equation` are what a formula consists of;
* `Reader` takes a value off the front of a text: `readPoint`, `readParameter`, `readExpression` and
  `readBranch` are readers, and `readSeparated` reads a list of values;
* `readEquation` reads a whole formula.
-/

namespace PiecewiseGlyph.Reading

variable {β : Type}

/-! ## What is read -/

/-- An argument of a call. -/
inductive Argument (β : Type)
  | point (p : Point β)
  | parameter (u : LocalParameter)
  deriving DecidableEq, Repr

/-- What a branch draws: a point with a multiple of a displacement, or a call of a helper
function. -/
inductive Expression (β : Type)
  | sum (start : Point β) (factor : LocalParameter) (offset : Point β)
  | call (name : List Char) (args : List (Argument β))
  deriving DecidableEq, Repr

/-- An expression with the fraction that the parameter stays below. -/
structure Branch (β : Type) where
  bound : Option Threshold
  expression : Expression β
  deriving DecidableEq, Repr

/-- The equation that defines a function. -/
structure Equation (β : Type) where
  label : List Char
  divisor : β
  branches : List (Branch β)
  deriving DecidableEq, Repr

/-! ## Readers -/

/-- Take a value off the front of a text. -/
abbrev Reader (β : Type) := List Char → Option (β × List Char)

/-- The characters of plain decimals. -/
def isLiteralChar (c : Char) : Bool := c.isDigit || c == '-' || c == '.'

/-- A number, as far as its characters go. -/
def readLiteral (literal : List Char → Option β) : Reader β := fun cs =>
  let (text, rest) := Text.upTo (! isLiteralChar ·) cs
  (literal text).map (·, rest)

/-- A natural number. -/
def readNat : Reader Nat := fun cs =>
  let (digits, rest) := Text.upTo (! Char.isDigit ·) cs
  if digits.isEmpty then none else some (Numeral.natOfDigits digits, rest)

/-- A pair of numbers. -/
def readPoint (literal : List Char → Option β) : Reader (Point β) := fun cs => do
  let cs ← Text.dropWord? "\\left(".toList cs
  let (x, cs) ← readLiteral literal cs
  let cs ← Text.dropWord? ",\\ ".toList cs
  let (y, cs) ← readLiteral literal cs
  let cs ← Text.dropWord? "\\right)".toList cs
  return (⟨x, y⟩, cs)

/-- A multiple of the parameter, from which a number may be taken. -/
def readParameter : Reader LocalParameter := fun cs => do
  let (factor, cs) ← readNat cs
  let cs ← Text.dropWord? "t".toList cs
  match Text.dropWord? "-".toList cs with
  | none => return (⟨factor, 0⟩, cs)
  | some cs =>
    let (shift, cs) ← readNat cs
    return (⟨factor, shift⟩, cs)

/-- A parameter, which may stand in brackets. -/
def readFactor : Reader LocalParameter := fun cs =>
  match Text.dropWord? "\\left(".toList cs with
  | none => readParameter cs
  | some cs => do
    let (u, cs) ← readParameter cs
    let cs ← Text.dropWord? "\\right)".toList cs
    return (u, cs)

/-- A point or a parameter. -/
def readArgument (literal : List Char → Option β) : Reader (Argument β) := fun cs =>
  match readPoint literal cs with
  | some (p, cs) => some (.point p, cs)
  | none => (readParameter cs).map fun (u, cs) => (.parameter u, cs)

/-- One or more values with a word between them. -/
def readSeparated (item : Reader β) (separator : List Char) (cs : List Char) :
    Option (List β × List Char) :=
  match item cs with
  | none => none
  | some (x, rest) =>
    match Text.dropWord? separator rest with
    | none => some ([x], rest)
    | some rest' =>
      if rest'.length < cs.length then
        (readSeparated item separator rest').map fun (xs, rest) => (x :: xs, rest)
      else none
  termination_by cs.length

/-- What stands before the first bracket tells a call from a sum. -/
def readExpression (literal : List Char → Option β) : Reader (Expression β) := fun cs => do
  let (name, rest) ← Text.splitAtWord? "\\left(".toList cs
  if name.isEmpty then
    let (start, cs) ← readPoint literal cs
    let cs ← Text.dropWord? "+".toList cs
    let (factor, cs) ← readFactor cs
    let (offset, cs) ← readPoint literal cs
    return (.sum start factor offset, cs)
  else
    let (args, cs) ← readSeparated (readArgument literal) ",\\ ".toList rest
    let cs ← Text.dropWord? "\\right)".toList cs
    return (.call name args, cs)

/-- The numbers of a fraction. -/
def readThreshold : Reader Threshold := fun cs => do
  let (numerator, cs) ← readNat cs
  let cs ← Text.dropWord? "\x7d\x7b".toList cs
  let (denominator, cs) ← readNat cs
  return (⟨numerator, denominator⟩, cs)

/-- A branch with its condition, if it has one. -/
def readBranch (literal : List Char → Option β) : Reader (Branch β) := fun cs =>
  match Text.dropWord? "t<\\frac\x7b".toList cs with
  | none => do
    let (expression, cs) ← readExpression literal cs
    return (⟨none, expression⟩, cs)
  | some cs => do
    let (bound, cs) ← readThreshold cs
    let cs ← Text.dropWord? "\x7d: ".toList cs
    let (expression, cs) ← readExpression literal cs
    return (⟨some bound, expression⟩, cs)

/-- The branches of a function; there may be none. -/
def readBranches (literal : List Char → Option β) (cs : List Char) :
    List (Branch β) × List Char :=
  (readSeparated (readBranch literal) ",\\ ".toList cs).getD ([], cs)

/-- One character of a subscript, which may be written as a command. -/
def readLabelChar : Reader Char
  | [] => none
  | '\\' :: cs =>
    (Text.dropWord? "backslash ".toList cs).map ('\\', ·) <|>
      (Text.dropWord? "hat\x7b\x7d".toList cs).map ('^', ·) <|>
      (Text.dropWord? "sim ".toList cs).map ('~', ·) <|> cs.head?.map (·, cs.tail)
  | c :: cs => some (c, cs)

/-- A subscript, up to and with the brace that ends it. -/
def readLabel (cs : List Char) : Option (List Char × List Char) :=
  match Text.dropWord? "\x7d".toList cs with
  | some rest => some ([], rest)
  | none =>
    match readLabelChar cs with
    | none => none
    | some (c, rest) =>
      if rest.length < cs.length then (readLabel rest).map fun (label, rest) => (c :: label, rest)
      else none
  termination_by cs.length

/-- A whole equation. -/
def readEquation (literal : List Char → Option β) (cs : List Char) : Option (Equation β) := do
  let cs ← Text.dropWord? "g_\x7blyph".toList cs
  let (label, cs) ← readLabel cs
  let cs ← Text.dropWord?
    "\\left(P,\\ t,\\ s_\x7bcale\x7d\\right)=P+\\frac\x7bs_\x7bcale\x7d\x7d\x7b".toList cs
  let (divisor, cs) ← readLiteral literal cs
  let cs ← Text.dropWord? "\x7d\\left\\\x7b".toList cs
  let (branches, cs) := readBranches literal cs
  let cs ← Text.dropWord? "\\right\\\x7d".toList cs
  if cs.isEmpty then return ⟨label, divisor, branches⟩ else none

end PiecewiseGlyph.Reading
