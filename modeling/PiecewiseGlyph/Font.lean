import PiecewiseGlyph.Files.Access
import PiecewiseGlyph.Glyph
import PiecewiseGlyph.Markup.Attribute
import PiecewiseGlyph.Markup.Reference

/-!
# SVG fonts

The glyphs of a font are the elements with the local name `glyph` that have both a character and
path data. All other parts of the document only have to be well formed.

* `GlyphAttributes.ofTag` collects what the tag of a glyph says;
* `readFont` lists the glyphs of a document in order, or gives the first fault, and `loadFont` reads
  them from a file;
* `selectGlyphs` finds a glyph for each label, in the order of the labels; of several glyphs with
  one label the first counts;
* `listGlyphs` writes the labels of glyphs, one per line.
-/

namespace PiecewiseGlyph

open Markup

/-- What is wrong with the tag of a glyph. -/
inductive GlyphFault
  | form (fault : AttributeFault)
  | value (fault : ReferenceFault)
  deriving DecidableEq, Repr

/-- The fault in words, from the outermost cause to the innermost. -/
def GlyphFault.chain : GlyphFault → List String
  | form fault => [fault.message]
  | value fault => fault.chain

/-- What is wrong with a font, and the position of the faulty item in bytes. -/
inductive FontFault
  | markup (position : Nat) (fault : Fault)
  | glyph (position : Nat) (fault : GlyphFault)
  deriving DecidableEq, Repr

/-- The fault in words, from the outermost cause to the innermost. -/
def FontFault.chain : FontFault → List String
  | markup position fault => [s!"Invalid XML near byte {position}: {fault.message}"]
  | glyph position fault => s!"Invalid <glyph> near byte {position}" :: fault.chain

/-! ## Tags of glyphs -/

/-- What the tag of a glyph says. -/
structure GlyphAttributes where
  label : Option String
  pathData : Option String
  name : Option String
  deriving DecidableEq, Repr

namespace GlyphAttributes

/-- Nothing said. -/
def empty : GlyphAttributes := ⟨none, none, none⟩

/-- Take an attribute in. Of attributes with one local name the last counts. -/
def add (said : GlyphAttributes) (a : Attribute) : Except ReferenceFault GlyphAttributes :=
  let key := localName a.key
  let value := (resolve a.value).map String.ofList
  if key = "unicode".toList then value.map fun text => { said with label := some text }
  else if key = "d".toList then value.map fun text => { said with pathData := some text }
  else if key = "glyph-name".toList then value.map fun text => { said with name := some text }
  else .ok said

/-- Take attributes in, up to the first fault. -/
def addAll (said : GlyphAttributes) (as : List Attribute) : Except ReferenceFault GlyphAttributes :=
  as.foldlM add said

/-- What a tag says. A faulty reference comes before a fault in a later attribute. -/
def ofTag (content : List Char) : Except GlyphFault GlyphAttributes := do
  let (as, fault) := attributes content
  let said ← (empty.addAll as).mapError .value
  match fault with
  | some fault => throw (.form fault)
  | none => return said

/-- The glyph, if there are both a character and path data. -/
def glyph? (said : GlyphAttributes) : Option Glyph :=
  match said.label, said.pathData with
  | some label, some pathData => some ⟨label, pathData, said.name⟩
  | _, _ => none

end GlyphAttributes

/-- The glyph that an item describes. -/
def Markup.Item.glyph? (item : Item) : Except GlyphFault (Option Glyph) :=
  match item.tag? with
  | some content =>
    if localName (tagName content) = "glyph".toList then
      (GlyphAttributes.ofTag content).map GlyphAttributes.glyph?
    else .ok none
  | none => .ok none

/-! ## Documents -/

/-- The glyphs in the rest of a document, which begins at a position. `names` are those of the open
elements. -/
def readGlyphs (position : Nat) (names : List (List Char)) (cs : List Char) :
    Except FontFault (List Glyph) :=
  match cs with
  | [] => .ok []
  | c :: cs =>
    match _h : Item.read c cs with
    | .error fault => .error (.markup position fault)
    | .ok (item, rest) => do
      let names ← (item.nest names).mapError (.markup position)
      let glyph? ← item.glyph?.mapError (.glyph position)
      let more ← readGlyphs (position + Text.byteLength item.write) names rest
      return glyph?.toList ++ more
  termination_by cs.length
  decreasing_by
    have := Item.length_of_read _h
    simp only [List.length_cons]; omega

/-- A byte-order mark at the start does not belong to the document. -/
def dropByteOrderMark : List Char → List Char
  | '\uFEFF' :: cs => cs
  | cs => cs

/-- The glyphs of a document. -/
def readFont (text : String) : Except FontFault (List Glyph) :=
  readGlyphs 0 [] (dropByteOrderMark text.toList)

/-! ## Font files -/

/-- Why a font cannot be read. -/
inductive FontError
  | unreadable (name : String) (cause : FileError)
  | unusable (name : String) (cause : FontFault)
  deriving DecidableEq, Repr

/-- The error in words, from the outermost cause to the innermost. -/
def FontError.chain : FontError → List String
  | unreadable name cause => ["Failed to read SVG font " ++ name, cause.message]
  | unusable name cause => ("Failed to parse SVG font " ++ name) :: cause.chain

/-- Read the glyphs of a font from a file. -/
def loadFont (t : FileTree) (name : String) : Except FontError (List Glyph) := do
  let text ← (t.read name).mapError (.unreadable name)
  (readFont text).mapError (.unusable name)

/-! ## Choosing glyphs -/

/-- A label that no glyph has. -/
structure MissingGlyph where
  label : String
  deriving DecidableEq, Repr

/-- The fault in words. -/
def MissingGlyph.message (m : MissingGlyph) : String :=
  s!"No glyph with unicode '{m.label}' in this font"

/-- The first glyph with a label. -/
def findGlyph (glyphs : List Glyph) (label : String) : Except MissingGlyph Glyph :=
  match glyphs.find? (·.label == label) with
  | some g => .ok g
  | none => .error ⟨label⟩

/-- A glyph for each label. -/
def selectGlyphs (glyphs : List Glyph) (labels : List String) : Except MissingGlyph (List Glyph) :=
  labels.mapM (findGlyph glyphs)

/-- The label of each glyph on a line, with its name after a tab. -/
def listGlyphs (glyphs : List Glyph) : String :=
  "\n".intercalate (glyphs.map fun g =>
    match g.name with
    | some name => g.label ++ "\t" ++ name
    | none => g.label)

end PiecewiseGlyph
