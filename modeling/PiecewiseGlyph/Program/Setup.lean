import PiecewiseGlyph.Files.Route
import PiecewiseGlyph.Settings

/-!
# New settings

Where the program keeps its settings and its logs, and how it sets them up. A settings file with the
built-in choices is written where there is none, so that it can be edited. What was done before a
failure stays done, and so does what was printed.

* `dateOfDay` writes the date of a day that is given by its distance from the first of January 1970;
* `Places` is what a run has to know of the system, with the names of files and directories;
* `Setup` is what is left behind: the files, the text printed, and how it ended;
* `Setup.settingsFile` writes a settings file, and `Setup.configDirectory` also makes the
  directories around it.
-/

namespace PiecewiseGlyph

/-! ## Dates -/

/-- A number with at least two digits. -/
def twoDigits (n : Nat) : String := if n < 10 then "0" ++ n.repr else n.repr

/-- The date of a day as year, month and day. Years are counted from March, so that the day that
some years have more is their last, and in spans of 400 years, which all have the same length. -/
def dateOfDay (day : Nat) : String :=
  let shifted := day + 719468
  let span := shifted / 146097
  let inSpan := shifted % 146097
  let year := (inSpan - inSpan / 1460 + inSpan / 36524 - inSpan / 146096) / 365
  let inYear := inSpan - (365 * year + year / 4 - year / 100)
  let fromMarch := (5 * inYear + 2) / 153
  let inMonth := inYear - (153 * fromMarch + 2) / 5 + 1
  let month := if fromMarch < 10 then fromMarch + 3 else fromMarch - 9
  let civil := 400 * span + year + if month ≤ 2 then 1 else 0
  civil.repr ++ "-" ++ twoDigits month ++ "-" ++ twoDigits inMonth

/-- The day of the count itself, and a leap day. -/
example :
    dateOfDay 0 = "1970-01-01" ∧ dateOfDay 11016 = "2000-02-29" ∧
      dateOfDay 20453 = "2025-12-31" := by
  decide +kernel

/-! ## Places -/

/-- What a run has to know of the system. -/
structure Places where
  /-- The directory for the configurations of all programs. -/
  configHome : String
  /-- The day of the run. -/
  date : String
  deriving DecidableEq, Repr

namespace Places

/-- The directory for the configuration of this program. -/
def configDirectory (places : Places) : String := joinName places.configHome "glyph-desmos"

/-- The settings of the user. -/
def settingsFile (places : Places) : String := joinName places.configDirectory "settings.json"

/-- The directory for logs. -/
def logDirectory (places : Places) : String := joinName places.configDirectory "logs"

/-- The log of the day. -/
def logFile (places : Places) : String :=
  joinName places.logDirectory s!"glyph-desmos-{places.date}.log"

end Places

/-! ## Setting up -/

/-- Why new settings could not be written. -/
inductive SetupError
  | directory (cause : FileError)
  | settings (name : String) (cause : FileError)
  deriving DecidableEq, Repr

/-- The error in words, from the outermost cause to the innermost. -/
def SetupError.chain : SetupError → List String
  | directory cause => [cause.message]
  | settings name cause => ["Failed to write settings file " ++ name, cause.message]

/-- Files, text printed, and how setting up ended. -/
structure Setup where
  tree : FileTree
  printed : String
  result : Except SetupError Unit

namespace Setup

/-- Go on, unless something failed. -/
def andThen (s : Setup) (next : FileTree → Setup) : Setup :=
  match s.result with
  | .error _ => s
  | .ok () =>
    let more := next s.tree
    { more with printed := s.printed ++ more.printed }

/-- Make a directory. -/
def directory (what name : String) (t : FileTree) : Setup :=
  match t.createDirectories name with
  | (t, .ok ()) => ⟨t, s!"Created {what} directory: {quoteName name}\n", .ok ()⟩
  | (t, .error e) => ⟨t, "", .error (.directory e)⟩

/-- Write the built-in settings, unless there is a file already. -/
def settingsFile (name : String) (t : FileTree) : Setup :=
  if t.exists name then ⟨t, s!"Settings file already exists: {quoteName name}\n", .ok ()⟩
  else
    match Settings.example.save t name with
    | (t, .ok ()) => ⟨t, s!"Created settings file: {quoteName name}\n", .ok ()⟩
    | (t, .error e) => ⟨t, "", .error (.settings name e)⟩

/-- Make the directory for the configuration, with settings and a directory for logs. -/
def configDirectory (places : Places) (t : FileTree) : Setup :=
  (directory "config" places.configDirectory t).andThen fun t =>
    (directory "logs" places.logDirectory t).andThen (settingsFile places.settingsFile)

end Setup

end PiecewiseGlyph
