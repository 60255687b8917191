import PiecewiseGlyph.Files.Access
import PiecewiseGlyph.Formula.Style
import PiecewiseGlyph.Json.Record
import PiecewiseGlyph.Json.Value

/-!
# Settings

What a user has chosen beforehand, each choice being optional. Settings are kept as a JSON record
whose members are the choices made.

* `Settings.apply` lays settings over a style; `Settings.example` spells out the built-in choices;
* `Settings.write` and `Settings.read` are the written form and its reader;
* `Style.read` reads a whole style, where a missing field has its built-in value;
* `Settings.load` reads the settings from a file, if there is one, and `Settings.save` writes them,
  and makes the directories that the file is in.
-/

namespace PiecewiseGlyph

/-- The choices of a user. -/
structure Settings where
  normalization : Option Float
  quadraticName : Option String
  cubicName : Option String
  /-- Write the definitions of the helper functions before the formulas. -/
  emitHelpers : Option Bool
  deriving Repr

namespace Settings

/-- No choice made. -/
def empty : Settings := ⟨none, none, none, none⟩

/-- The built-in choices, written out. -/
def «example» : Settings :=
  ⟨some Style.default.normalization, some Style.default.quadraticName,
    some Style.default.cubicName, some false⟩

/-- Lay the choices over a style. -/
def apply (settings : Settings) (style : Style Float) : Style Float :=
  { normalization := settings.normalization.getD style.normalization
    quadraticName := settings.quadraticName.getD style.quadraticName
    cubicName := settings.cubicName.getD style.cubicName }

/-! ## The written form -/

/-- The choices made, as a record. -/
def toJson (settings : Settings) : Json.Value :=
  let member (name : String) {α : Type} (f : α → Json.Value) (choice : Option α) :=
    (choice.map fun a => (name, f a)).toList
  .object (member "normalization" Json.Value.real settings.normalization ++
    member "quadratic_fn" Json.Value.string settings.quadraticName ++
    member "cubic_fn" Json.Value.string settings.cubicName ++
    member "emit_helpers" Json.Value.bool settings.emitHelpers)

/-- The written form. -/
def write (settings : Settings) : String := settings.toJson.pretty

/-- The fields of the record; null stands for no choice. -/
def fields : List (Json.Field Settings) :=
  open Json in
  [.of "normalization" (orNull readReal) (orNull_neverGrows readReal_neverGrows)
      fun s x => { s with normalization := x },
    .of "quadratic_fn" (orNull readText) (orNull_neverGrows readText_neverGrows)
      fun s x => { s with quadraticName := x },
    .of "cubic_fn" (orNull readText) (orNull_neverGrows readText_neverGrows)
      fun s x => { s with cubicName := x },
    .of "emit_helpers" (orNull readFlag) (orNull_neverGrows readFlag_neverGrows)
      fun s x => { s with emitHelpers := x }]

/-- Read settings. -/
def read (text : String) : Except Json.Fault Settings :=
  Json.readDocument (Json.readRecord fields empty) text

end Settings

namespace Style

/-- A style as a record. -/
def toJson (style : Style Float) : Json.Value :=
  .object [("normalization", .real style.normalization),
    ("quadratic_fn", .string style.quadraticName), ("cubic_fn", .string style.cubicName)]

/-- The fields of the record. -/
def fields : List (Json.Field (Style Float)) :=
  open Json in
  [.of "normalization" readReal readReal_neverGrows fun s x => { s with normalization := x },
    .of "quadratic_fn" readText readText_neverGrows fun s x => { s with quadraticName := x },
    .of "cubic_fn" readText readText_neverGrows fun s x => { s with cubicName := x }]

/-- Read a style. -/
def read (text : String) : Except Json.Fault (Style Float) :=
  Json.readDocument (Json.readRecord fields default) text

end Style

/-! ## Settings files -/

/-- Why settings cannot be read from a file. -/
inductive SettingsError
  | unreadable (name : String) (cause : FileError)
  | unusable (name : String) (cause : Json.Fault)
  deriving DecidableEq, Repr

/-- The error in words, from the outermost cause to the innermost. -/
def SettingsError.chain : SettingsError → List String
  | unreadable name cause => ["Failed to read settings file " ++ name, cause.message]
  | unusable name cause => ["Failed to parse settings file " ++ name, cause.message]

namespace Settings

/-- Read settings from a file. Where there is no file, there are no settings. -/
def load (t : FileTree) (name : String) : Except SettingsError (Option Settings) :=
  if t.exists name then do
    let text ← (t.read name).mapError (.unreadable name)
    let settings ← (read text).mapError (.unusable name)
    return some settings
  else .ok none

/-- Write settings to a file. -/
def save (settings : Settings) (t : FileTree) (name : String) : FileTree × Except FileError Unit :=
  match t.createParents name with
  | (t, .error e) => (t, .error e)
  | (t, .ok ()) =>
    match t.write name settings.write with
    | .ok t => (t, .ok ())
    | .error e => (t, .error e)

end Settings

end PiecewiseGlyph
