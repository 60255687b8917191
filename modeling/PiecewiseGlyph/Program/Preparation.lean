import PiecewiseGlyph.CommandLine.Arguments
import PiecewiseGlyph.Font
import PiecewiseGlyph.Program.Setup

/-!
# Preparing what is delivered

Files are only read here: nothing is written before the whole text is there.

* `RunError` has a constructor for each thing that can make a run fail, and `RunError.chain` puts it
  in words;
* `Work` is work that may fail and that gives notices on the way;
* `prepare` makes the text that a request asks for.
-/

namespace PiecewiseGlyph

/-! ## Failures of a run -/

/-- Why a run fails. -/
inductive RunError
  /-- The log file cannot be made. -/
  | logging (cause : FileError)
  | configDirectory (cause : SetupError)
  | newSettings (cause : SetupError)
  | arguments (cause : ArgumentsError)
  | noSettings (name : String)
  | settings (cause : SettingsError)
  | style (cause : StyleError)
  | font (cause : FontError)
  | selection (cause : MissingGlyph)
  | glyph (label : String) (cause : PathError)
  | output (name : String) (cause : FileError)
  /-- Some glyphs were faulty. -/
  | incomplete (failed total : Nat)
  deriving Repr

/-- The error in words, from the outermost cause to the innermost. -/
def RunError.chain : RunError → List String
  | logging cause => [cause.message]
  | configDirectory cause => "Failed to initialize config directory" :: cause.chain
  | newSettings cause => cause.chain
  | arguments cause => [cause.message]
  | noSettings name => ["Settings file does not exist: " ++ name]
  | settings cause => cause.chain
  | style cause => [cause.message]
  | font cause => cause.chain
  | selection cause => [cause.message]
  | glyph label cause => [s!"Failed to convert glyph '{label}'", cause.message]
  | output name cause => ["Failed to write " ++ name, cause.message]
  | incomplete failed total => [s!"{failed} of {total} glyphs could not be converted"]

/-! ## Work with notices -/

/-- A result or an error, and the notices given before. -/
structure Work (α : Type) where
  notices : List Notice
  result : Except RunError α

namespace Work

/-- Notices alone. -/
def tell (notices : List Notice) : Work Unit := ⟨notices, .ok ()⟩

/-- A result or an error, without notices. -/
def of {α ε : Type} (error : ε → RunError) (result : Except ε α) : Work α :=
  ⟨[], result.mapError error⟩

instance : Monad Work where
  pure a := ⟨[], .ok a⟩
  bind w f :=
    match w.result with
    | .error e => ⟨w.notices, .error e⟩
    | .ok a => ⟨w.notices ++ (f a).notices, (f a).result⟩

end Work

/-! ## The text -/

/-- A text to deliver, and how many of how many glyphs are missing from it. -/
structure Delivery where
  text : String
  failed : Nat
  total : Nat
  deriving DecidableEq, Repr

/-- The settings to use. A file that was asked for has to be there and usable; the file of the user
is passed over if it is not. -/
def chooseSettings (places : Places) (t : FileTree) (a : Arguments) : Work (Option Settings) :=
  match a.config with
  | some name =>
    match Settings.load t name with
    | .ok (some settings) => ⟨[], .ok (some settings)⟩
    | .ok none => ⟨[], .error (.noSettings name)⟩
    | .error e => ⟨[], .error (.settings e)⟩
  | none =>
    match Settings.load t places.settingsFile with
    | .ok settings => ⟨[], .ok settings⟩
    | .error e => ⟨[⟨.warn, ": ".intercalate e.chain⟩], .ok none⟩

/-- The formula of path data that come with a label. -/
def prepareOne (a : Arguments) (style : Style Float) (helpers : Bool) (pathData : String) :
    Work Delivery := do
  let label := a.label.getD ""
  let formula ← Work.of (.glyph label) (Formula.ofPathData label pathData style)
  Work.tell formula.notices
  return ⟨render style helpers [⟨label, .ok formula⟩] a.format, 0, 1⟩

/-- The glyphs that are wanted. -/
def chooseGlyphs (a : Arguments) (glyphs : List Glyph) : Except MissingGlyph (List Glyph) :=
  if a.all then .ok glyphs else selectGlyphs glyphs a.labels

/-- The formulas of glyphs. A faulty glyph does not keep the others from being delivered. -/
def prepareAll (a : Arguments) (style : Style Float) (helpers : Bool) (glyphs : List Glyph) :
    Work Delivery := do
  let outcomes := convertAll glyphs style
  let failures := outcomes.filterMap Outcome.failure?
  Work.tell (outcomes.flatMap Outcome.warnings ++ failures)
  return ⟨render style helpers outcomes a.format, failures.length, outcomes.length⟩

/-- The list of a font, or the formulas of the glyphs chosen from it. -/
def prepareFont (t : FileTree) (a : Arguments) (style : Style Float) (helpers : Bool)
    (name : String) : Work Delivery := do
  let glyphs ← Work.of .font (loadFont t name)
  Work.tell [⟨.info, s!"Loaded {glyphs.length} glyphs from {name}"⟩]
  if a.list then return ⟨listGlyphs glyphs, 0, glyphs.length⟩
  else prepareAll a style helpers (← Work.of .selection (chooseGlyphs a glyphs))

/-- The text that a request asks for. -/
def prepare (places : Places) (t : FileTree) (a : Arguments) : Work Delivery := do
  Work.of .arguments (a.check t)
  let settings ← chooseSettings places t a
  let style := a.style settings
  Work.of .style style.check
  let helpers := a.wantsHelpers settings
  match a.pathData with
  | some pathData => prepareOne a style helpers pathData
  | none =>
    match a.font with
    | some name => prepareFont t a style helpers name
    | none => Work.of .arguments (.error .nothingToConvert)

end PiecewiseGlyph
