import PiecewiseGlyph.Result

/-!
# Readers

A reader takes a value from the front of a text and returns what follows. It fails with the first
problem from the left: the text ends early, it is no JSON, or it is JSON of another shape.

* `Json.Reader` is the type of readers, and `Reader.NeverGrows` the property that lets readers be
  repeated: what follows is no longer than the text;
* `skipBlanks` and `readWord` are the smallest readers.
-/

namespace PiecewiseGlyph.Json

/-- The kinds of problems. -/
inductive Fault
  /-- The text is not JSON, or a number in it is out of range. -/
  | malformed
  /-- The text does not have the expected shape. -/
  | mismatched
  /-- The text ends within a value. -/
  | truncated
  deriving DecidableEq, Repr

/-- The problem in words. -/
def Fault.message : Fault → String
  | malformed => "not a JSON text"
  | mismatched => "a JSON text of another shape"
  | truncated => "a JSON text that ends early"

/-- A reader of values of a type. -/
abbrev Reader (α : Type) := List Char → Except Fault (α × List Char)

/-- What a reader leaves is no longer than what it was given. -/
def Reader.NeverGrows {α : Type} (r : Reader α) : Prop :=
  ∀ cs a rest, r cs = .ok (a, rest) → rest.length ≤ cs.length

/-! ## Blanks and words -/

/-- The white space of JSON. -/
def isBlank (c : Char) : Bool := c == ' ' || c == '\n' || c == '\t' || c == '\r'

/-- Drop leading blanks. -/
def skipBlanks (cs : List Char) : List Char := cs.dropWhile isBlank

theorem length_skipBlanks_le (cs : List Char) : (skipBlanks cs).length ≤ cs.length :=
  (List.dropWhile_sublist _).length_le

theorem length_of_skipBlanks {cs rest : List Char} {c : Char} (h : skipBlanks cs = c :: rest) :
    rest.length < cs.length := by
  have hle := length_skipBlanks_le cs
  rw [h, List.length_cons] at hle
  exact hle

/-- A character that is not blank stays. -/
@[simp] theorem skipBlanks_cons {c : Char} (cs : List Char) (h : isBlank c = false) :
    skipBlanks (c :: cs) = c :: cs := by simp [skipBlanks, h]

/-- Read a fixed word. -/
def readWord : List Char → List Char → Except Fault (List Char)
  | [], cs => .ok cs
  | _ :: _, [] => .error .truncated
  | w :: ws, c :: cs => if c = w then readWord ws cs else .error .malformed

theorem length_of_readWord {word cs rest : List Char} (h : readWord word cs = .ok rest) :
    cs.length = word.length + rest.length := by
  fun_induction readWord word cs with
  | case1 cs => cases h; simp
  | case2 => cases h
  | case3 w ws cs ih => have := ih h; simp only [List.length_cons]; omega
  | case4 => cases h

end PiecewiseGlyph.Json
