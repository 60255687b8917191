/-!
# Path commands

The commands of path data that outlines are drawn with: an absolute move, and relative lines, curves
and closing. Each has one letter; the other letters of the path alphabet are known but not handled.
A fault names the command it was found at and the position of that command's letter, in bytes. Any
fault is fatal for the glyph: no part of a formula is written.

* `Command.ofLetter?` and `Command.letter` are inverse to each other (`ofLetter?_letter`,
  `letter_of_ofLetter?`);
* `Command.arity` is the number of arguments of one use;
* `PathError.Cause` lists what can be wrong, in the text or in a list of tokens;
* `PathError.message` is the wording.
-/

namespace PiecewiseGlyph

/-! ## Commands -/

/-- A command that is handled. -/
inductive Command
  /-- `M x y`: an absolute move. -/
  | move
  /-- `l dx dy` -/
  | line
  /-- `h dx` -/
  | horizontal
  /-- `v dy` -/
  | vertical
  /-- `q dx1 dy1 dx dy` -/
  | quadratic
  /-- `t dx dy`: a quadratic curve with a reflected control point. -/
  | smoothQuadratic
  /-- `c dx1 dy1 dx2 dy2 dx dy` -/
  | cubic
  /-- `s dx2 dy2 dx dy`: a cubic curve with a reflected first control point. -/
  | smoothCubic
  /-- `z` -/
  | close
  deriving DecidableEq, Repr

namespace Command

/-- The letters of the commands. -/
def supportedLetters : List Char := "Mlvhqtcsz".toList

/-- The letters of path commands that are not handled. -/
def unsupportedLetters : List Char := "mLHVQTCSZAa".toList

/-- The command with a letter. -/
def ofLetter? : Char → Option Command
  | 'M' => some move
  | 'l' => some line
  | 'h' => some horizontal
  | 'v' => some vertical
  | 'q' => some quadratic
  | 't' => some smoothQuadratic
  | 'c' => some cubic
  | 's' => some smoothCubic
  | 'z' => some close
  | _ => none

/-- The letter of a command. -/
def letter : Command → Char
  | move => 'M'
  | line => 'l'
  | horizontal => 'h'
  | vertical => 'v'
  | quadratic => 'q'
  | smoothQuadratic => 't'
  | cubic => 'c'
  | smoothCubic => 's'
  | close => 'z'

@[simp] theorem ofLetter?_letter (c : Command) : ofLetter? c.letter = some c := by
  cases c <;> rfl

theorem letter_of_ofLetter? {x : Char} {c : Command} (h : ofLetter? x = some c) : c.letter = x := by
  unfold ofLetter? at h
  split at h <;> cases h <;> rfl

/-- The number of arguments of one use. -/
def arity : Command → Nat
  | move | line | smoothQuadratic => 2
  | horizontal | vertical => 1
  | quadratic | smoothCubic => 4
  | cubic => 6
  | close => 0

/-- Does the command draw a segment? -/
def draws : Command → Bool
  | move | close => false
  | _ => true

/-- Does it draw a quadratic curve? -/
def isQuadratic : Command → Bool
  | quadratic | smoothQuadratic => true
  | _ => false

/-- Does it draw a cubic curve? -/
def isCubic : Command → Bool
  | cubic | smoothCubic => true
  | _ => false

end Command

/-! ## Faults -/

/-- What is wrong with a command. -/
inductive PathError.Cause
  /-- The letter belongs to no path command. -/
  | unknownLetter
  /-- The letter is that of a path command which is not handled. -/
  | unsupported
  /-- Text stands before the first command. -/
  | strayText (text : String)
  /-- An argument is not a finite number. -/
  | invalidNumber (text : String)
  /-- The arguments do not make up whole uses of the command. -/
  | argumentCount (expected found : Nat)
  /-- A closing command is left where only lines and curves can be drawn. -/
  | unresolvedClose
  /-- A coordinate is out of range. -/
  | coordinateOverflow
  deriving DecidableEq, Repr

/-- A fault in path data. -/
structure PathError where
  /-- The letter of the command, or the first character of stray text. -/
  command : Char
  /-- Its position in bytes. -/
  offset : Nat
  cause : PathError.Cause
  deriving DecidableEq, Repr

namespace PathError

/-- Does the data use a feature that is not handled, rather than being corrupt? -/
def isUnsupported (e : PathError) : Bool := e.cause == .unsupported

/-- The reason in words. -/
def Cause.message : Cause → String
  | unknownLetter => "not a path command"
  | unsupported => "only M, l, h, v, q, t, c, s and z are supported"
  | strayText text => s!"unexpected text '{text}'"
  | invalidNumber text => s!"'{text}' is not a number"
  | argumentCount 0 found => s!"takes no arguments, found {found}"
  | argumentCount expected found => s!"expected a multiple of {expected} arguments, found {found}"
  | unresolvedClose => "close-path was not normalized before building segments"
  | coordinateOverflow => "coordinates overflow to infinity"

/-- The fault in words. -/
def message (e : PathError) : String :=
  if e.isUnsupported then
    s!"unsupported path command '{e.command}' at byte {e.offset} ({e.cause.message})"
  else s!"malformed command '{e.command}' at byte {e.offset}: {e.cause.message}"

end PathError

end PiecewiseGlyph
