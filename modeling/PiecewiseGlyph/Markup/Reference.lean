import PiecewiseGlyph.Text.Split
import PiecewiseGlyph.Text.Utf8

/-!
# References

In the value of an attribute, a character may be given by name or by number, between an ampersand
and a semicolon.

* `predefined?` are the names, and `readCode` reads the number of a character;
* `resolve` replaces the references of a value.
-/

namespace PiecewiseGlyph.Markup

/-- What is wrong with the number of a character. -/
inductive CodeFault
  | sign
  | noDigit
  | badDigit
  | tooLarge
  | zero
  | noCharacter (code : Nat)
  deriving DecidableEq, Repr

/-- The fault in words. -/
def CodeFault.message : CodeFault → String
  | sign => "unexpected number sign"
  | noDigit => "cannot parse integer from empty string"
  | badDigit => "invalid digit found in string"
  | tooLarge => "number too large to fit in target type"
  | zero => "0x0 character is not permitted in XML"
  | noCharacter code => s!"`{code}` is not a valid codepoint"

/-- A number that cannot be read has a cause of its own. -/
def CodeFault.isReading : CodeFault → Bool
  | noDigit => true
  | badDigit => true
  | tooLarge => true
  | _ => false

/-- What is wrong with a value; positions count its bytes. -/
inductive ReferenceFault
  /-- An ampersand without a semicolon before the next ampersand. -/
  | notClosed (start stop : Nat)
  | unknownName (start stop : Nat) (name : String)
  | code (fault : CodeFault)
  deriving DecidableEq, Repr

/-- The fault in words, from the outermost cause to the innermost. -/
def ReferenceFault.chain : ReferenceFault → List String
  | notClosed start stop =>
    List.replicate 2
      s!"Error while escaping character at range {start}..{stop}: Cannot find ';' after '&'"
  | unknownName start stop name =>
    List.replicate 2 s!"at {start}..{stop}: unrecognized entity `{name}`"
  | code fault =>
    List.replicate 2 ("invalid character reference: " ++ fault.message) ++
      List.replicate (if fault.isReading then 2 else 1) fault.message

/-- The characters that have a name. -/
def predefined? (name : List Char) : Option Char :=
  if name = "lt".toList then some '<'
  else if name = "gt".toList then some '>'
  else if name = "amp".toList then some '&'
  else if name = "apos".toList then some '\x27'
  else if name = "quot".toList then some '"'
  else none

/-- The value of a digit, decimal or hexadecimal in either case. -/
def digit? (base : Nat) (c : Char) : Option Nat :=
  let value :=
    if c.isDigit then c.toNat - '0'.toNat
    else if 'a' ≤ c ∧ c ≤ 'f' then c.toNat - 'a'.toNat + 10
    else if 'A' ≤ c ∧ c ≤ 'F' then c.toNat - 'A'.toNat + 10
    else base
  if value < base then some value else none

/-- Continue a number of at most 32 bits with digits. -/
def readDigits (base value : Nat) : List Char → Except CodeFault Nat
  | [] => .ok value
  | c :: cs =>
    match digit? base c with
    | none => .error .badDigit
    | some d =>
      if value * base + d < Nat.pow 2 32 then readDigits base (value * base + d) cs
      else .error .tooLarge

/-- Read an unsigned number. -/
def readNumber (base : Nat) (cs : List Char) : Except CodeFault Nat :=
  if cs.isEmpty then .error .noDigit
  else if cs.head? = some '+' ∨ cs.head? = some '-' then .error .sign
  else readDigits base 0 cs

/-- Read the number of a character; it is hexadecimal after an `x`. -/
def readCode (cs : List Char) : Except CodeFault Char := do
  let code ← match cs with
    | 'x' :: digits => readNumber 16 digits
    | digits => readNumber 10 digits
  if code = 0 then throw .zero
  else if Nat.isValidChar code then return Char.ofNat code
  else throw (.noCharacter code)

/-- The character that a reference stands for, given what stands between ampersand and semicolon. -/
def readReference (start : Nat) (name : List Char) : Except ReferenceFault Char :=
  match name with
  | '#' :: code => (readCode code).mapError .code
  | name =>
    match predefined? name with
    | some c => .ok c
    | none => .error (.unknownName start (start + Text.byteLength name) (String.ofList name))

/-- The characters that end the search for the end of a reference. -/
def endsReference (c : Char) : Bool := c == ';' || c == '&'

/-- Replace the references in the rest of a value of a given size. -/
def resolveFrom (size : Nat) (cs : List Char) : Except ReferenceFault (List Char) :=
  match _hp : Text.upTo (· == '&') cs with
  | (plain, []) => .ok plain
  | (plain, _ :: rest) =>
    match _hn : Text.upTo endsReference rest with
    | (name, ';' :: after) =>
      match readReference (size - Text.byteLength rest) name with
      | .error fault => .error fault
      | .ok c => (resolveFrom size after).map (plain ++ c :: ·)
    | _ => .error (.notClosed (size - Text.byteLength rest - 1) size)
  termination_by cs.length
  decreasing_by
    have h₁ := Text.length_upTo_snd_le (· == '&') cs
    have h₂ := Text.length_upTo_snd_le endsReference rest
    rw [_hp, List.length_cons] at h₁
    rw [_hn, List.length_cons] at h₂
    omega

/-- Replace the references of a value. -/
def resolve (value : List Char) : Except ReferenceFault (List Char) :=
  resolveFrom (Text.byteLength value) value

end PiecewiseGlyph.Markup
