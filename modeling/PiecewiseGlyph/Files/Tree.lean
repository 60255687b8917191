/-!
# File trees

A file tree holds directories and files by location, and one directory in which work is done.

* `FileTree.find?` looks a location up, and `FileTree.insert` puts a node there (`find?_insert`);
* there is always a directory at the root (`find?_root`);
* `FileTree.changesSince` lists what differs from an earlier tree.
-/

namespace PiecewiseGlyph

/-- What a file holds: text, or bytes that are no text. -/
inductive Content
  | text (text : String)
  | binary (bytes : List UInt8)
  deriving DecidableEq, Repr

/-- Bytes are text if they can be read as such. -/
def Content.ofBytes (bytes : List UInt8) : Content :=
  match String.fromUTF8? ⟨bytes.toArray⟩ with
  | some s => text s
  | none => binary bytes

/-- What is at a location. -/
inductive Node
  | directory
  | file (content : Content)
  deriving DecidableEq, Repr

/-- The names that lead to a place, the innermost first; the root has none. -/
abbrev Location := List String

/-- Files and directories. -/
structure FileTree where
  nodes : List (Location × Node)
  /-- The directory in which relative names begin. -/
  working : Location
  deriving DecidableEq, Repr

/-- Why a file cannot be used. -/
inductive FileError
  | missing
  | occupied
  | notDirectory
  | isDirectory
  | notText
  deriving DecidableEq, Repr

/-- The error in words. -/
def FileError.message : FileError → String
  | missing => "No such file or directory (os error 2)"
  | occupied => "File exists (os error 17)"
  | notDirectory => "Not a directory (os error 20)"
  | isDirectory => "Is a directory (os error 21)"
  | notText => "stream did not contain valid UTF-8"

namespace FileTree

/-- What is at a location. -/
def find? (t : FileTree) (l : Location) : Option Node :=
  if l = [] then some .directory else t.nodes.lookup l

/-- Put a node at a location. -/
def insert (t : FileTree) (l : Location) (n : Node) : FileTree :=
  { t with nodes := (l, n) :: t.nodes }

@[simp] theorem find?_root (t : FileTree) : t.find? [] = some .directory := rfl

/-- A change is seen at its location and nowhere else. -/
theorem find?_insert (t : FileTree) {l : Location} (n : Node) (hl : l ≠ []) (k : Location) :
    (t.insert l n).find? k = if k = l then some n else t.find? k := by
  by_cases hk : k = []
  · subst hk; simp [find?, Ne.symm hl]
  · by_cases h : k = l
    · subst h; simp [find?, insert, hk]
    · simp [find?, insert, hk, h, List.lookup_cons, beq_false_of_ne h]

/-- What differs from an earlier tree, in the order in which it was put there. -/
def changesSince (after before : FileTree) : List (Location × Node) :=
  (after.nodes.map (·.1)).reverse.eraseDups.filterMap fun l =>
    (after.find? l).bind fun n => if before.find? l = some n then none else some (l, n)

end FileTree

end PiecewiseGlyph
