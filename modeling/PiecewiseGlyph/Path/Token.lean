import PiecewiseGlyph.Outline.Segment
import PiecewiseGlyph.Path.Command
import PiecewiseGlyph.Text.Split

/-!
# Tokens of path data

Commands are delimited by nothing but their letters: a command's arguments are all that stands up to
the next letter that can start a command. A token is one use of a command with its arguments. A
closing command either finds the pen at the start of its contour, and then draws nothing, or stands
for a line back to that start; closings are resolved before any segment is counted.

* `Stretch` is a letter with the text up to the next one; `stretches` cuts a text into them and
  loses nothing (`flatten_stretches`);
* `Stretch.tokens` reads one stretch: the arguments are grouped by the arity, and further pairs
  after a move are lines;
* `tokenize` reads a whole text, and reports the leftmost faulty command;
* `nextCommand?` finds a command letter from a position on;
* `closeContours` replaces every closing command; the way drawn is summed from the last one on;
* `parsePath` reads path data and resolves its closings.
-/

namespace PiecewiseGlyph

variable {α : Type} [Scalar α]

/-- One use of a command. -/
structure Token (α : Type) where
  command : Command
  args : List α
  /-- The position of the command's letter, in bytes. -/
  offset : Nat
  deriving DecidableEq, Repr

/-- How far the token moves the pen; moves and closings count as no way. -/
def Token.displacement (token : Token α) : Point α :=
  match token.command with
  | .move | .close => Point.origin
  | .horizontal => ⟨token.args.headD Scalar.zero, Scalar.zero⟩
  | .vertical => ⟨Scalar.zero, token.args.headD Scalar.zero⟩
  | _ =>
    match token.args.reverse with
    | dy :: dx :: _ => ⟨dx, dy⟩
    | _ => Point.origin

/-- The number of segments that tokens draw. -/
def countSegments (tokens : List (Token α)) : Nat := tokens.countP (·.command.draws)

/-! ## Finding commands -/

/-- Letters that start a command. `e` and `E` do not, since they occur within numbers. -/
def startsCommand (c : Char) : Bool := c.isAlpha && c != 'e' && c != 'E'

/-- The position of the first command letter at or after a position. -/
def nextCommand? (data : String) (start : Nat) : Option Nat :=
  match Text.dropBytes? start data.toList with
  | none => none
  | some cs =>
    match Text.upTo startsCommand cs with
    | (_, []) => none
    | (before, _ :: _) => some (start + Text.byteLength before)

/-- A command letter with the text that follows it. -/
structure Stretch where
  letter : Char
  offset : Nat
  text : List Char
  deriving DecidableEq, Repr

/-- Cut a text that starts with a command letter; `offset` is its position. -/
def stretches (offset : Nat) : List Char → List Stretch
  | [] => []
  | c :: cs =>
    let span := Text.upTo startsCommand cs
    ⟨c, offset, span.1⟩ :: stretches (offset + Text.byteLength (c :: span.1)) span.2
  termination_by cs => cs.length
  decreasing_by
    have := Text.length_upTo_snd_le startsCommand cs
    simp only [List.length_cons]; omega

/-- Letters and texts make up the whole. -/
theorem flatten_stretches (offset : Nat) (cs : List Char) :
    (stretches offset cs).flatMap (fun s => s.letter :: s.text) = cs := by
  fun_induction stretches offset cs with
  | case1 => rfl
  | case2 offset c cs span ih => rw [List.flatMap_cons, ih]; simp [span]

/-! ## Reading a stretch -/

/-- Arguments are separated by blanks and commas. -/
def separatesArguments (c : Char) : Bool := Text.isBlank c || c == ','

namespace Stretch

/-- The stretch's command. -/
def command (s : Stretch) : Except PathError Command :=
  match Command.ofLetter? s.letter with
  | some command => .ok command
  | none =>
    .error ⟨s.letter, s.offset,
      if Command.unsupportedLetters.contains s.letter then .unsupported else .unknownLetter⟩

/-- One argument. -/
def argument (s : Stretch) (piece : List Char) : Except PathError α :=
  match Scalar.read? piece with
  | some x => .ok x
  | none => .error ⟨s.letter, s.offset, .invalidNumber (String.ofList piece)⟩

/-- The arguments. -/
def arguments (s : Stretch) : Except PathError (List α) :=
  (Text.pieces separatesArguments s.text).mapM s.argument

/-- Do so many arguments make up one or more uses of the command? -/
def fits (command : Command) (count : Nat) : Bool :=
  if command.arity = 0 then count == 0 else count != 0 && count % command.arity == 0

/-- The uses of a command in a stretch: further pairs after a move are lines. -/
def uses (command : Command) (offset : Nat) (args : List α) : List (Token α) :=
  if command.arity = 0 then [⟨command, args, offset⟩]
  else
    match Text.groups command.arity args with
    | [] => []
    | first :: more =>
      let next := if command = .move then .line else command
      ⟨command, first, offset⟩ :: more.map (⟨next, ·, offset⟩)

/-- Read a stretch. -/
def tokens (s : Stretch) : Except PathError (List (Token α)) := do
  let command ← s.command
  let args ← s.arguments
  if fits command args.length then return uses command s.offset args
  else throw ⟨s.letter, s.offset, .argumentCount command.arity args.length⟩

end Stretch

/-! ## Reading path data -/

/-- The fault of text before the first command, if there is any but blanks. -/
def strayText? (lead : List Char) : Option PathError :=
  match Text.upTo (! Text.isBlank ·) lead with
  | (_, []) => none
  | (blanks, c :: cs) =>
    some ⟨c, Text.byteLength blanks, .strayText (String.ofList (Text.trimBlanksRight (c :: cs)))⟩

/-- The tokens of all stretches, up to the first faulty one. -/
def readStretches : List Stretch → Except PathError (List (Token α))
  | [] => .ok []
  | s :: rest => do
    let tokens ← s.tokens
    let more ← readStretches rest
    return tokens ++ more

/-- Read path data. -/
def tokenize (data : String) : Except PathError (List (Token α)) :=
  let (lead, rest) := Text.upTo startsCommand data.toList
  match strayText? lead with
  | some e => .error e
  | none => readStretches (stretches (Text.byteLength lead) rest)

/-! ## Closing contours -/

/-- Resolve closings; `way` is the displacement drawn since the last one. -/
def closeContoursFrom (way : Point α) : List (Token α) → List (Token α)
  | [] => []
  | token :: rest =>
    if token.command = .close then
      if way.isOrigin then closeContoursFrom way rest
      else
        let back := way.opposite
        ⟨.line, [back.x, back.y], token.offset⟩ :: closeContoursFrom Point.origin rest
    else
      let way := if token.command.draws then way + token.displacement else way
      token :: closeContoursFrom way rest

/-- Replace every closing command by a line to the start of its contour, or by nothing. -/
def closeContours (tokens : List (Token α)) : List (Token α) :=
  closeContoursFrom Point.origin tokens

/-- Read path data and resolve its closings. -/
def parsePath (data : String) : Except PathError (List (Token α)) :=
  (tokenize data).map closeContours

end PiecewiseGlyph
