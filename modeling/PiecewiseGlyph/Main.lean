import PiecewiseGlyph.CommandLine.Usage
import PiecewiseGlyph.Program.Run
import PiecewiseGlyph.Program.Setup

/-!
# The program

The files that a command line names are read, the run is computed, and its changes are written.
-/

namespace PiecewiseGlyph

/-- A location as the system names it. -/
def systemName (l : Location) : String := "/" ++ "/".intercalate l.reverse

/-- What the system has at a location. -/
def lookAt (l : Location) : IO (Option Node) := do
  match ← (IO.FS.realPath (systemName l)).toBaseIO with
  | .error _ => return none
  | .ok name =>
    if ← name.isDir then return some .directory
    else
      let bytes ← (IO.FS.readBinFile name).toBaseIO
      return bytes.toOption.map fun bytes => .file (Content.ofBytes bytes.toList)

/-- The part of the file system that some names lead to. -/
def readTree (names : List String) : IO FileTree := do
  let working := (Route.ofName (← IO.currentDir).toString).steps.reverse
  let empty : FileTree := ⟨[], working⟩
  let locations := (names.flatMap fun name => empty.passed (Route.ofName name)).eraseDups
  let nodes ← locations.filterMapM fun l => do return (← lookAt l).map (l, ·)
  return ⟨nodes, working⟩

/-- Write one change. -/
def writeChange (l : Location) : Node → IO Unit
  | .directory => IO.FS.createDir (systemName l)
  | .file (.text text) => IO.FS.writeFile (systemName l) text
  | .file (.binary bytes) => IO.FS.writeBinFile (systemName l) ⟨bytes.toArray⟩

/-- The day, by the time that the system gives to a new file. -/
def today : IO String := do
  let (_, name) ← IO.FS.createTempFile
  let seconds := (← name.metadata).modified.sec
  IO.FS.removeFile name
  return dateOfDay (seconds.toNat / 86400)

/-- Where the system keeps things. -/
def findPlaces (logFile : Bool) : IO Places := do
  let date ← if logFile then today else pure ""
  let home := (← IO.getEnv "HOME").filter (!·.isEmpty)
  match (← IO.getEnv "XDG_CONFIG_HOME").filter (·.startsWith "/"), home with
  | some directory, _ => return ⟨directory, date⟩
  | none, some home => return ⟨joinName home ".config", date⟩
  | none, none => return ⟨".", date⟩

/-- Carry out a request, and give the exit code. -/
def carryOut (a : Arguments) : IO UInt32 := do
  let places ← findPlaces a.logFile
  let names := [a.font, a.config, a.output].filterMap id ++ [places.settingsFile, places.logFile]
  let before ← readTree names
  let r := run places a before
  for (l, n) in r.tree.changesSince before do writeChange l n
  let shown := (r.notices.filter (·.isShown a.verbosity)).map Notice.line
  for line in shown do IO.eprintln line
  if a.logFile && r.tree.isFile places.logFile then
    let log ← IO.FS.Handle.mk places.logFile .append
    for line in shown do log.putStrLn line
  IO.print r.printed
  match r.result with
  | .ok () => return 0
  | .error e =>
    IO.eprintln ("\nError: " ++ ": ".intercalate e.chain ++ "\n")
    IO.eprintln "Try running with --help for usage information."
    return 1

end PiecewiseGlyph

/-- Carry out a command line. -/
def main (words : List String) : IO UInt32 := do
  match PiecewiseGlyph.Arguments.read words with
  | .ok a => PiecewiseGlyph.carryOut a
  | .error e =>
    if e.exitCode = 0 then IO.print e.message else IO.eprint e.message
    return e.exitCode.toUInt32
