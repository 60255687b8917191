import PiecewiseGlyph.Files.Route
import PiecewiseGlyph.Files.Tree

/-!
# Reading and writing files

* `FileTree.resolve` finds the location that a name describes: all steps before the last have to
  lead to directories;
* `FileTree.stat`, `FileTree.read`, `FileTree.exists`, `FileTree.isFile` look at what is there;
* `FileTree.write` writes a file, and `FileTree.createDirectories` makes a directory and those above
  it.
-/

namespace PiecewiseGlyph.FileTree

/-! ## Finding a location -/

/-- One step from a directory. -/
def step (l : Location) (s : String) : Location :=
  if s = "." then l else if s = ".." then l.tail else s :: l

/-- Follow steps that all have to lead to directories. -/
def descend (t : FileTree) (l : Location) : List String → Except FileError Location
  | [] => .ok l
  | s :: rest =>
    match t.find? (step l s) with
    | some .directory => t.descend (step l s) rest
    | some (.file _) => .error .notDirectory
    | none => .error .missing

/-- Where a way begins. -/
def origin (t : FileTree) (absolute : Bool) : Location := if absolute then [] else t.working

/-- The location that a way leads to; there may be nothing. An empty way leads nowhere. -/
def resolve (t : FileTree) (r : Route) : Except FileError Location :=
  match r.steps.getLast? with
  | some last => (t.descend (t.origin r.absolute) r.steps.dropLast).map (step · last)
  | none => if r.absolute then .ok [] else .error .missing

/-- The locations at which the steps of a way arrive, from its beginning on. -/
def passed (t : FileTree) (r : Route) : List Location :=
  (List.range (r.steps.length + 1)).map fun n =>
    (r.steps.take n).foldl step (t.origin r.absolute)

/-! ## Looking -/

/-- What a name stands for. -/
def stat (t : FileTree) (name : String) : Except FileError Node := do
  let r := Route.ofName name
  match t.find? (← t.resolve r) with
  | some .directory => return .directory
  | some (.file content) => if r.slash then throw .notDirectory else return .file content
  | none => throw .missing

/-- Whether there is anything by a name. -/
def «exists» (t : FileTree) (name : String) : Bool := (t.stat name).isOk

/-- Whether there is a file by a name. -/
def isFile (t : FileTree) (name : String) : Bool :=
  match t.stat name with
  | .ok (.file _) => true
  | _ => false

/-- The text of a file. -/
def read (t : FileTree) (name : String) : Except FileError String := do
  match ← t.stat name with
  | .directory => throw .isDirectory
  | .file (.text text) => return text
  | .file (.binary _) => throw .notText

/-! ## Writing -/

/-- Where a file of a name is written: not where a directory is or is meant. -/
def target (t : FileTree) (name : String) : Except FileError Location := do
  let r := Route.ofName name
  let l ← t.resolve r
  if r.slash then throw .isDirectory
  match t.find? l with
  | some .directory => throw .isDirectory
  | _ => return l

/-- Write a file, in place of one that is there. -/
def write (t : FileTree) (name text : String) : Except FileError FileTree :=
  (t.target name).map fun l => t.insert l (.file (.text text))

/-- Make the directory that the last of some steps leads to, unless it is there. The steps are given
from the last to the first. -/
def ensureDirectory (t : FileTree) (start : Location) (last : String) (before : List String) :
    Except FileError FileTree := do
  let l := step (← t.descend start before.reverse) last
  match t.find? l with
  | some .directory => return t
  | some (.file _) => throw .occupied
  | none => return t.insert l .directory

/-- Make a directory and those above it. The steps are given from the last to the first. What was
made before a failure stays. -/
def createSteps (t : FileTree) (start : Location) : List String → FileTree × Except FileError Unit
  | [] => (t, .ok ())
  | last :: before =>
    match t.ensureDirectory start last before with
    | .ok t => (t, .ok ())
    | .error .missing =>
      match t.createSteps start before with
      | (t, .error e) => (t, .error e)
      | (t, .ok ()) =>
        match t.ensureDirectory start last before with
        | .ok t => (t, .ok ())
        | .error e => (t, .error e)
    | .error e => (t, .error e)

/-- Make a directory of a name and those above it. -/
def createDirectories (t : FileTree) (name : String) : FileTree × Except FileError Unit :=
  let r := Route.ofName name
  t.createSteps (t.origin r.absolute) r.parts.reverse

/-- Make the directory in which a file of a name would be, and those above it. -/
def createParents (t : FileTree) (name : String) : FileTree × Except FileError Unit :=
  let r := Route.ofName name
  t.createSteps (t.origin r.absolute) r.parts.dropLast.reverse

end PiecewiseGlyph.FileTree
