import PiecewiseGlyph.Program.Preparation

/-!
# Runs

* `Run` is what a run leaves behind: the files, the text printed, the notices, and how it ended;
* `setUp` writes new settings, `startLog` makes the log file, and `deliver` delivers a text;
* `run` carries a request out.
-/

namespace PiecewiseGlyph

/-- What a run leaves behind. -/
structure Run where
  tree : FileTree
  /-- What was printed. -/
  printed : String
  notices : List Notice
  result : Except RunError Unit

/-! ## New settings -/

/-- Write new settings: to a file that was named, or to the directory for the configuration. -/
def setUp (places : Places) (config : Option String) (t : FileTree) : Run :=
  match config with
  | some name =>
    let s := Setup.settingsFile name t
    ⟨s.tree, s.printed, [], s.result.mapError .newSettings⟩
  | none =>
    let s := Setup.configDirectory places t
    ⟨s.tree, s.printed, [], s.result.mapError .configDirectory⟩

/-! ## Logs -/

/-- Make the log file of the day, unless it is there. -/
def startLog (places : Places) (t : FileTree) : FileTree × Except FileError Unit :=
  match t.createDirectories places.logDirectory with
  | (t, .error e) => (t, .error e)
  | (t, .ok ()) =>
    if t.exists places.logFile then (t, .ok ())
    else
      match t.write places.logFile "" with
      | .ok t => (t, .ok ())
      | .error e => (t, .error e)

/-! ## Delivery -/

/-- How a run ends after its delivery. -/
def Delivery.result (d : Delivery) : Except RunError Unit :=
  if d.failed = 0 then .ok () else .error (.incomplete d.failed d.total)

/-- Write a text with a line end to a file, or print it. -/
def deliver (t : FileTree) (output : Option String) (d : Delivery) : Run :=
  match output with
  | none => ⟨t, d.text ++ "\n", [], d.result⟩
  | some name =>
    match t.write name (d.text ++ "\n") with
    | .ok t => ⟨t, "", [⟨.info, s!"Wrote output to {name}"⟩], d.result⟩
    | .error e => ⟨t, "", [], .error (.output name e)⟩

/-- Prepare a text and deliver it. -/
def convertAndDeliver (places : Places) (a : Arguments) (t : FileTree) : Run :=
  let work := prepare places t a
  match work.result with
  | .error e => ⟨t, "", work.notices, .error e⟩
  | .ok d =>
    let r := deliver t a.output d
    { r with notices := work.notices ++ r.notices }

/-! ## Runs -/

/-- Carry out a request, apart from its log. -/
def runUnlogged (places : Places) (a : Arguments) (t : FileTree) : Run :=
  if a.newConfig then setUp places a.config t else convertAndDeliver places a t

/-- Carry out a request. A log that is asked for is made first. -/
def run (places : Places) (a : Arguments) (t : FileTree) : Run :=
  if a.logFile then
    match startLog places t with
    | (t, .error e) => ⟨t, "", [], .error (.logging e)⟩
    | (t, .ok ()) =>
      let r := runUnlogged places a t
      { r with notices := ⟨.info, s!"Logging to {quoteName places.logFile}"⟩ :: r.notices }
  else runUnlogged places a t

end PiecewiseGlyph
