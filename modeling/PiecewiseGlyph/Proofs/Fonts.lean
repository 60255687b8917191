import PiecewiseGlyph.Proofs.Markup.Writing

/-!
# Fonts and what is read from them

However the glyphs of a font are written down, just they are read back, in order:
`readFont_of_lists`. `crowded` is a font that has much else between them.
-/

namespace PiecewiseGlyph

open Markup

/-- **However glyphs are written down, just they are read back.** All glyphs can be written down,
and in many ways: their tags may have any form, and all other items may stand anywhere, as long as
the document is balanced. Each of these ways gives the glyphs back. -/
theorem readFont_of_lists (glyphs : List Glyph) :
    (∃ (text : String) (items : List Item), IsDocument (dropByteOrderMark text.toList) items ∧
      Balanced items ∧ Lists items glyphs) ∧
      ∀ (text : String) (items : List Item), IsDocument (dropByteOrderMark text.toList) items →
        Balanced items → Lists items glyphs → readFont text = .ok glyphs :=
  ⟨Lists.exists_document glyphs,
    fun _ _ hdocument hbalanced hglyphs => hglyphs.readFont_eq hbalanced hdocument⟩

/-! A font with a glyph in a comment, a glyph that is written in an unusual way, one that lacks its
path data, and an element that is no glyph. -/

/-- The text of the font, item by item. -/
def crowded : String :=
  String.join ["<font>", "<!--<glyph unicode='C' d=''/>-->",
    "<f:glyph d = 'M0>' unicode=\"&#x03E;&lt;'\">", "</f:glyph >", "<glyph unicode='B'/>",
    "<glyphRef unicode='R' d=''/>", "</font>"]

/-- The items of the font. -/
def crowdedItems : List Item :=
  [.openTag "font".toList, .comment "<glyph unicode='C' d=''/>".toList,
    .openTag "f:glyph d = 'M0>' unicode=\"&#x03E;&lt;'\"".toList, .closeTag "f:glyph ".toList,
    .emptyTag "glyph unicode='B'".toList, .emptyTag "glyphRef unicode='R' d=''".toList,
    .closeTag "font".toList]

theorem isDocument_crowded : IsDocument (dropByteOrderMark crowded.toList) crowdedItems := by
  rw [crowded, String.toList_join]
  decide +kernel

theorem balanced_crowdedItems : Balanced crowdedItems := by
  have hfont : closingName "font".toList = tagName "font".toList := by decide +kernel
  have hname : closingName "f:glyph ".toList =
      tagName "f:glyph d = 'M0>' unicode=\"&#x03E;&lt;'\"".toList := by decide +kernel
  have hglyphs : Balanced [.openTag "f:glyph d = 'M0>' unicode=\"&#x03E;&lt;'\"".toList,
      .closeTag "f:glyph ".toList, .emptyTag "glyph unicode='B'".toList,
      .emptyTag "glyphRef unicode='R' d=''".toList] :=
    .element hname .nil (.plain trivial (.plain trivial .nil))
  have hinner : Balanced (.comment "<glyph unicode='C' d=''/>".toList :: _) :=
    .plain trivial hglyphs
  exact .element hfont hinner .nil

/-- The label is given by a number and by a name. -/
theorem spells_crowdedLabel : Spells "><'".toList "&#x03E;&lt;'".toList := by
  have htext : "><'".toList = ['>', '<', '\x27'] := by decide
  have hvalue : "&#x03E;&lt;'".toList = '&' :: (['#', 'x', '0', '3', 'E'] ++ [';']) ++
      ('&' :: ("lt".toList ++ [';']) ++ (['\x27'] ++ [])) := by decide
  have hzero : Denotes 16 ['0'] 0 := @Denotes.concat 16 [] 0 0 '0' .nil (by decide) (.inl rfl)
  have hthree : Denotes 16 ['0', '3'] 3 :=
    @Denotes.concat 16 ['0'] 0 3 '3' hzero (by decide) (.inl rfl)
  have hcode : Denotes 16 ['0', '3', 'E'] ('>').toNat :=
    @Denotes.concat 16 ['0', '3'] 3 14 'E' hthree (by decide) (.inr rfl)
  rw [htext, hvalue]
  exact .cons (.reference (.hexadecimal hcode (by decide) (by decide)))
    (.cons (.reference (.name .lt)) (.cons (.plain (by decide)) .nil))

/-- The unusual glyph: a prefix, path data first and between spaces, both kinds of quotes. -/
theorem exists_crowdedTag :
    ∃ tag : WrittenTag, tag.content = "f:glyph d = 'M0>' unicode=\"&#x03E;&lt;'\"".toList ∧
      tag.Says ⟨some "><'", some "M0>", none⟩ := by
  let pathData : WrittenAttribute :=
    ⟨[' '], "d".toList, [' '], [' '], '\x27', "M0>".toList, by decide, isSpaces_singleton,
      by decide, isSpaces_singleton, isSpaces_singleton, by decide, by decide⟩
  let label : WrittenAttribute :=
    .tight "unicode".toList "&#x03E;&lt;'".toList '"' (by decide) isQuote_double (by decide)
  let tag : WrittenTag :=
    ⟨"f:glyph".toList, [pathData, label], [], by decide, by decide, isSpaces_nil⟩
  refine ⟨tag, by decide +kernel, ?_⟩
  exact
    { name := by decide +kernel
      label := .other (by decide +kernel) (.found (by decide +kernel) spells_crowdedLabel .nil)
      pathData := .found (by decide +kernel) (spells_self (by decide))
        (.other (by decide +kernel) .nil)
      glyphName := .other (by decide +kernel) (.other (by decide +kernel) .nil) }

/-- The glyph without path data. -/
theorem exists_incompleteTag :
    ∃ tag : WrittenTag, tag.content = "glyph unicode='B'".toList ∧
      tag.Says ⟨some "B", none, none⟩ := by
  let label : WrittenAttribute :=
    .tight "unicode".toList "B".toList '\x27' (by decide) (by decide) (by decide)
  let tag : WrittenTag := ⟨"glyph".toList, [label], [], by decide, by decide, isSpaces_nil⟩
  refine ⟨tag, by decide +kernel, ?_⟩
  exact
    { name := by decide +kernel
      label := .found (by decide +kernel) (spells_self (by decide)) .nil
      pathData := .other (by decide +kernel) .nil
      glyphName := .other (by decide +kernel) .nil }

theorem lists_crowdedItems : Lists crowdedItems [⟨"><'", "M0>", none⟩] := by
  have hother {item : Item} (h : (item.tag?.all fun content =>
      localName (tagName content) ≠ "glyph".toList) = true) : item.Describes none := by
    refine .other fun content hcontent => ?_
    rw [Option.mem_def.mp hcontent] at h
    exact of_decide_eq_true h
  obtain ⟨crowdedTag, hcrowded, hsaid⟩ := exists_crowdedTag
  obtain ⟨incompleteTag, hincomplete, hlabel⟩ := exists_incompleteTag
  have hglyph := Item.Describes.glyph (.inl (congrArg Item.openTag hcrowded.symm)) hsaid
  have hnone := Item.Describes.incomplete (.inr (congrArg Item.emptyTag hincomplete.symm)) hlabel
    (.inr rfl)
  exact .skip (hother (by decide +kernel)) <| .skip (hother rfl) <| .glyph hglyph <|
    .skip (hother rfl) <| .skip hnone <| .skip (hother (by decide +kernel)) <|
    .skip (hother rfl) .nil

/-- Just the unusual glyph is read. -/
theorem readFont_of_lists_crowded :
    (IsDocument (dropByteOrderMark crowded.toList) crowdedItems ∧ Balanced crowdedItems ∧
      Lists crowdedItems [⟨"><'", "M0>", none⟩]) ∧
      readFont crowded = .ok [⟨"><'", "M0>", none⟩] :=
  ⟨⟨isDocument_crowded, balanced_crowdedItems, lists_crowdedItems⟩,
    (readFont_of_lists _).2 _ _ isDocument_crowded balanced_crowdedItems lists_crowdedItems⟩

end PiecewiseGlyph
