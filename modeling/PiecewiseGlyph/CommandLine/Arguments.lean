import PiecewiseGlyph.Decimal.Numeral
import PiecewiseGlyph.Files.Access
import PiecewiseGlyph.Glyph
import PiecewiseGlyph.Settings

/-!
# Arguments

What the program is asked to do.

* `Arguments` has a field for each thing that can be said on the command line;
* `Arguments.check` refuses a request that makes no sense, and gives the first reason;
* `Arguments.style` and `Arguments.wantsHelpers` lay the arguments over the settings of the user.
-/

namespace PiecewiseGlyph

/-- A request. -/
structure Arguments where
  font : Option String
  /-- The characters whose glyphs are wanted. -/
  glyphs : Option String
  all : Bool
  list : Bool
  pathData : Option String
  label : Option String
  output : Option String
  format : OutputFormat
  normalization : Option Float
  helpers : Bool
  config : Option String
  newConfig : Bool
  verbosity : Nat
  logFile : Bool
  deriving Repr

namespace Arguments

/-- A request in which nothing is said. -/
def empty : Arguments :=
  { font := none, glyphs := none, all := false, list := false, pathData := none, label := none
    output := none, format := .text, normalization := none, helpers := false, config := none
    newConfig := false, verbosity := 0, logFile := false }

/-- The characters of `--glyphs`, one label each. -/
def labels (a : Arguments) : List String := (a.glyphs.getD "").toList.map Char.toString

/-- The style to use: an argument comes before a setting, a setting before the built-in choice. -/
def style (a : Arguments) (settings : Option Settings) : Style Float :=
  let style := (settings.getD Settings.empty).apply Style.default
  { style with normalization := a.normalization.getD style.normalization }

/-- Whether the definitions of the helper functions are wanted. -/
def wantsHelpers (a : Arguments) (settings : Option Settings) : Bool :=
  a.helpers || ((settings.getD Settings.empty).emitHelpers.getD false)

end Arguments

/-! ## Requests that make no sense -/

/-- Why a request is refused. -/
inductive ArgumentsError
  | normalization (x : Float)
  | labelWithoutPathData
  | fontAndPathData
  | pathDataWithoutLabel
  | nothingToConvert
  | fontMissing (name : String)
  | notAFile (name : String)
  | unsupportedType (name : String)
  | glyphsAndAll
  | noCharacters
  | noChoice
  deriving Repr

/-- The error in words. -/
def ArgumentsError.message : ArgumentsError → String
  | normalization x => (StyleError.normalization x).message
  | labelWithoutPathData => "--label is only used together with --path-data"
  | fontAndPathData => "Give either an SVG font or --path-data, not both."
  | pathDataWithoutLabel => "--path-data needs a glyph label, e.g. --label A"
  | nothingToConvert => "Nothing to convert: give an SVG font file or --path-data."
  | fontMissing name =>
    s!"Font file does not exist: {name}\nMake sure the path is correct and the file exists."
  | notAFile name => s!"Not a file: {name}"
  | unsupportedType name => s!"Unsupported file type: {name}\nOnly SVG fonts (.svg) are supported."
  | glyphsAndAll => "Use either --glyphs or --all, not both."
  | noCharacters => "--glyphs needs at least one character"
  | noChoice => "Choose glyphs with --glyphs <CHARS>, or use --all or --list."

namespace Arguments

/-- A divisor has to be a positive number. -/
def checkNormalization (a : Arguments) : Except ArgumentsError Unit :=
  match a.normalization with
  | some x => if isDivisor x then .ok () else .error (.normalization x)
  | none => .ok ()

/-- Path data need a label, and no font. -/
def checkPathData (a : Arguments) : Except ArgumentsError Unit :=
  if a.font.isSome then .error .fontAndPathData
  else if (a.label.getD "").isEmpty then .error .pathDataWithoutLabel
  else .ok ()

/-- A font has to be a file, with a name that says so. -/
def checkFont (t : FileTree) (name : String) : Except ArgumentsError Unit :=
  if !t.exists name then .error (.fontMissing name)
  else if !t.isFile name then .error (.notAFile name)
  else if (Route.ofName name).extension?.map String.toLower = some "svg" then .ok ()
  else .error (.unsupportedType name)

/-- A font is listed, or glyphs are chosen in one way. -/
def checkChoice (a : Arguments) : Except ArgumentsError Unit :=
  if a.list then .ok ()
  else
    match a.glyphs, a.all with
    | some _, true => .error .glyphsAndAll
    | some glyphs, false => if glyphs.isEmpty then .error .noCharacters else .ok ()
    | none, false => .error .noChoice
    | none, true => .ok ()

/-- Refuse a request that makes no sense. A request for new settings always does. -/
def check (t : FileTree) (a : Arguments) : Except ArgumentsError Unit :=
  if a.newConfig then .ok ()
  else do
    a.checkNormalization
    if a.label.isSome && a.pathData.isNone then throw .labelWithoutPathData
    if a.pathData.isSome then a.checkPathData
    else
      match a.font with
      | none => throw .nothingToConvert
      | some name =>
        checkFont t name
        a.checkChoice

end Arguments

end PiecewiseGlyph
