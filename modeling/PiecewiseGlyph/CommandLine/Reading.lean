import PiecewiseGlyph.CommandLine.Arguments

/-!
# Reading a command line

A command line has switches, parameters with a value, and one name that stands alone: the font.

* `Word.of` tells what a word looks like;
* `Draft` is what is known after some words: the last parameter may wait for its value, and a value
  is looked at only when the next switch or parameter comes, or the line ends (`Draft.settle`);
* `Draft.read` takes a word in, and `Arguments.read` reads a whole line.
-/

namespace PiecewiseGlyph

/-- What stands for itself. -/
inductive Switch
  | all
  | list
  | helpers
  | newConfig
  | verbose
  | logFile
  | help
  | version
  deriving DecidableEq, Repr

/-- What has a value. The font is given by its value alone. -/
inductive Parameter
  | font
  | glyphs
  | pathData
  | label
  | output
  | format
  | normalization
  | config
  deriving DecidableEq, Repr

/-- A switch or a parameter. -/
inductive Key
  | switch (s : Switch)
  | parameter (p : Parameter)
  deriving DecidableEq, Repr

/-- The key with a long name. -/
def Key.ofName? : String → Option Key
  | "all" => some (.switch .all)
  | "list" => some (.switch .list)
  | "helpers" => some (.switch .helpers)
  | "new-config" => some (.switch .newConfig)
  | "verbose" => some (.switch .verbose)
  | "log-file" => some (.switch .logFile)
  | "help" => some (.switch .help)
  | "version" => some (.switch .version)
  | "glyphs" => some (.parameter .glyphs)
  | "path-data" => some (.parameter .pathData)
  | "label" => some (.parameter .label)
  | "output" => some (.parameter .output)
  | "format" => some (.parameter .format)
  | "normalization" => some (.parameter .normalization)
  | "config" => some (.parameter .config)
  | _ => none

/-- The key with a letter. -/
def Key.ofLetter? : Char → Option Key
  | 'a' => some (.switch .all)
  | 'l' => some (.switch .list)
  | 'v' => some (.switch .verbose)
  | 'h' => some (.switch .help)
  | 'V' => some (.switch .version)
  | 'g' => some (.parameter .glyphs)
  | 'd' => some (.parameter .pathData)
  | 'o' => some (.parameter .output)
  | _ => none

/-- Why a command line is not carried out. -/
inductive CommandLineError
  /-- A key that is not known, or a second font. -/
  | unknownWord
  /-- A key that is given twice. -/
  | repeatedKey
  /-- A value that is missing, empty or not among the choices. -/
  | badValue
  /-- A value that is no number. -/
  | notANumber
  /-- A value for a switch. -/
  | surplusValue
  | helpWanted
  | versionWanted
  deriving DecidableEq, Repr

/-! ## Words -/

/-- What a word looks like. -/
inductive Word
  /-- Two hyphens, after which there are no more keys. -/
  | separator
  /-- A long name, and a value after an equals sign. -/
  | long (name : String) (value : Option String)
  /-- Letters after a hyphen. -/
  | short (first : Char) (more : List Char)
  | plain
  deriving DecidableEq, Repr

/-- What a word looks like. -/
def Word.of (text : String) : Word :=
  match text.toList with
  | ['-', '-'] => separator
  | '-' :: '-' :: cs =>
    match Text.upTo (· == '=') cs with
    | (name, _ :: value) => long (String.ofList name) (some (String.ofList value))
    | (name, []) => long (String.ofList name) none
  | '-' :: c :: cs => short c cs
  | _ => plain

/-! ## Drafts -/

/-- What is known after some words. -/
structure Draft where
  arguments : Arguments
  /-- The keys that have been taken in. -/
  given : List Key
  /-- The parameter that was named last, with its value if it has come. -/
  waiting : Option (Parameter × Option String)
  /-- There are no more keys. -/
  separated : Bool
  deriving Repr

namespace Draft

/-- Nothing is known. -/
def empty : Draft := ⟨Arguments.empty, [], none, false⟩

/-- A file name is not empty. -/
def readName (text : String) : Except CommandLineError String :=
  if text.isEmpty then .error .badValue else .ok text

/-- Store the value of a parameter. -/
def store (a : Arguments) (p : Parameter) (text : String) : Except CommandLineError Arguments :=
  match p with
  | .font => (readName text).map fun name => { a with font := some name }
  | .glyphs => .ok { a with glyphs := some text }
  | .pathData => .ok { a with pathData := some text }
  | .label => .ok { a with label := some text }
  | .output => (readName text).map fun name => { a with output := some name }
  | .format =>
    if text = "text" then .ok { a with format := .text }
    else if text = "json" then .ok { a with format := .json }
    else .error .badValue
  | .normalization =>
    match readFloat? text with
    | some x => .ok { a with normalization := some x }
    | none => .error .notANumber
  | .config => (readName text).map fun name => { a with config := some name }

/-- Take a parameter in with its value. -/
def give (d : Draft) (p : Parameter) (text : String) : Except CommandLineError Draft :=
  if d.given.contains (.parameter p) then .error .repeatedKey
  else
    (store d.arguments p text).map fun a =>
      { d with arguments := a, given := .parameter p :: d.given }

/-- Take in what is waiting. -/
def settle (d : Draft) : Except CommandLineError Draft :=
  match d.waiting with
  | none => .ok d
  | some (p, some text) => { d with waiting := none }.give p text
  | some (_, none) => .error .badValue

/-- Turn a switch on. -/
def turnOn (a : Arguments) : Switch → Arguments
  | .all => { a with all := true }
  | .list => { a with list := true }
  | .helpers => { a with helpers := true }
  | .newConfig => { a with newConfig := true }
  | .verbose => { a with verbosity := min (a.verbosity + 1) 255 }
  | .logFile => { a with logFile := true }
  | .help => a
  | .version => a

/-- Take a switch in. Only the one for verbosity may be repeated. -/
def takeSwitch (d : Draft) (s : Switch) : Except CommandLineError Draft := do
  let d ← d.settle
  if s = .help then throw .helpWanted
  else if s = .version then throw .versionWanted
  else if s ≠ .verbose && d.given.contains (.switch s) then throw .repeatedKey
  else return { d with arguments := turnOn d.arguments s, given := .switch s :: d.given }

/-- Take a parameter in, with its value if that has come. -/
def takeParameter (d : Draft) (p : Parameter) (value : Option String) :
    Except CommandLineError Draft := do
  let d ← d.settle
  match value with
  | some text => d.give p text
  | none => return { d with waiting := some (p, none) }

/-- Take a key in that is given by its long name. -/
def takeLong (d : Draft) (name : String) (value : Option String) : Except CommandLineError Draft :=
  match Key.ofName? name with
  | none => .error .unknownWord
  | some (.switch s) => if value.isSome then .error .surplusValue else d.takeSwitch s
  | some (.parameter p) => d.takeParameter p value

/-- The value that follows a letter in the same word. -/
def attachedValue? : List Char → Option String
  | [] => none
  | '=' :: cs => some (String.ofList cs)
  | cs => some (String.ofList cs)

/-- Take in keys that are given by letters. The first parameter among them has the rest as its
value. -/
def takeLetters (d : Draft) (c : Char) : List Char → Except CommandLineError Draft
  | [] =>
    match Key.ofLetter? c with
    | none => .error .unknownWord
    | some (.switch s) => d.takeSwitch s
    | some (.parameter p) => d.takeParameter p none
  | next :: more =>
    match Key.ofLetter? c with
    | none => .error .unknownWord
    | some (.switch s) => do (← d.takeSwitch s).takeLetters next more
    | some (.parameter p) => d.takeParameter p (attachedValue? (next :: more))

/-- Take in a word that stands alone: the font. -/
def takeFont (d : Draft) (text : String) : Except CommandLineError Draft :=
  if d.given.contains (.parameter .font) || (d.waiting.any (·.1 = .font)) then .error .unknownWord
  else do
    let d ← d.settle
    return { d with waiting := some (.font, some text) }

/-- The parameter whose value is next. -/
def awaited? (d : Draft) : Option Parameter :=
  match d.waiting with
  | some (p, none) => if d.separated then none else some p
  | _ => none

/-- Take a word in. After `--path-data` any word is its value. -/
def read (d : Draft) (text : String) : Except CommandLineError Draft :=
  if d.separated then d.takeFont text
  else if d.awaited? = some .pathData then .ok { d with waiting := some (.pathData, some text) }
  else
    match Word.of text with
    | .separator => .ok { d with separated := true }
    | .long name value => d.takeLong name value
    | .short c cs => d.takeLetters c cs
    | .plain =>
      match d.awaited? with
      | some p => .ok { d with waiting := some (p, some text) }
      | none => d.takeFont text

end Draft

/-- Read a command line, without the name of the program. -/
def Arguments.read (words : List String) : Except CommandLineError Arguments := do
  let d ← words.foldlM Draft.read Draft.empty
  return (← d.settle).arguments

end PiecewiseGlyph
