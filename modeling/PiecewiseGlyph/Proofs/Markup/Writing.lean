import PiecewiseGlyph.Proofs.Markup.Glyphs

/-!
# Writing glyphs

One way to write a font: an element for each glyph, its texts between double quotes.

* `escape` is the spelling of a character there;
* `Item.ofGlyphs` are the items of the font;
* `Lists.exists_document`: all glyphs can be written down, whatever their texts.
-/

namespace PiecewiseGlyph

namespace Markup

/-! ## Texts -/

/-- A character as it may stand between double quotes. -/
def escape (c : Char) : List Char :=
  if c = '&' then "&amp;".toList
  else if c = '<' then "&lt;".toList
  else if c = '"' then "&quot;".toList
  else [c]

theorem spelling_escape (c : Char) : Spelling c (escape c) := by
  rw [escape]
  split
  · rename_i hc
    exact hc ▸ .reference (.name .amp)
  split
  · rename_i hc
    exact hc ▸ .reference (.name .lt)
  split
  · rename_i hc
    exact hc ▸ .reference (.name .quot)
  · rename_i hamp _ _
    exact .plain hamp

theorem quote_not_mem_escape (c : Char) : '"' ∉ escape c := by
  rw [escape]
  split
  · decide
  split
  · decide
  split
  · decide
  · rename_i hquote
    exact fun h => hquote (List.mem_singleton.mp h).symm

/-- Every text can be written between double quotes. -/
theorem spells_flatMap_escape (text : List Char) : Spells text (text.flatMap escape) := by
  induction text with
  | nil => exact .nil
  | cons c text ih => exact .cons (spelling_escape c) ih

theorem quote_not_mem_flatMap_escape (text : List Char) : '"' ∉ text.flatMap escape := by
  intro h
  obtain ⟨c, -, hc⟩ := List.mem_flatMap.mp h
  exact quote_not_mem_escape c hc

/-! ## Tags -/

/-- An attribute for a text. -/
def WrittenAttribute.escaped (key : List Char) (text : String) (hkey : IsName key) :
    WrittenAttribute :=
  .tight key (text.toList.flatMap escape) '"' hkey isQuote_double
    (quote_not_mem_flatMap_escape text.toList)

theorem isName_unicode : IsName "unicode".toList := by decide

theorem isName_d : IsName "d".toList := by decide

theorem isName_glyphName : IsName "glyph-name".toList := by decide

theorem isName_glyph : IsName "glyph".toList := by decide

theorem isName_font : IsName "font".toList := by decide

/-- The attributes of a glyph. -/
def WrittenAttribute.ofGlyph (g : Glyph) : List WrittenAttribute :=
  .escaped "unicode".toList g.label isName_unicode :: .escaped "d".toList g.pathData isName_d ::
    (g.name.map fun name => .escaped "glyph-name".toList name isName_glyphName).toList

theorem WrittenAttribute.nodup_keys_ofGlyph (g : Glyph) :
    ((ofGlyph g).map WrittenAttribute.key).Nodup := by
  obtain ⟨label, pathData, name⟩ := g
  cases name with
  | none =>
    change ["unicode".toList, "d".toList].Nodup
    decide
  | some name =>
    change ["unicode".toList, "d".toList, "glyph-name".toList].Nodup
    decide

namespace WrittenTag

/-- The tag of a glyph. -/
def ofGlyph (g : Glyph) : WrittenTag where
  name := "glyph".toList
  attributes := WrittenAttribute.ofGlyph g
  atEnd := []
  isName_name := isName_glyph
  nodup_keys := WrittenAttribute.nodup_keys_ofGlyph g
  isSpaces_atEnd := isSpaces_nil

/-- The tag around all glyphs. -/
def font : WrittenTag where
  name := "font".toList
  attributes := []
  atEnd := []
  isName_name := isName_font
  nodup_keys := .nil
  isSpaces_atEnd := isSpaces_nil

theorem says_ofGlyph (g : Glyph) : (ofGlyph g).Says ⟨some g.label, some g.pathData, g.name⟩ := by
  have hglyph : localName "glyph".toList = "glyph".toList := by decide +kernel
  have hunicode : localName "unicode".toList = "unicode".toList := by decide +kernel
  have hd : localName "d".toList = "d".toList := by decide +kernel
  have hname : localName "glyph-name".toList = "glyph-name".toList := by decide +kernel
  have hud : "unicode".toList ≠ "d".toList := by decide
  have hun : "unicode".toList ≠ "glyph-name".toList := by decide
  have hdn : "d".toList ≠ "glyph-name".toList := by decide
  obtain ⟨label, pathData, name⟩ := g
  have hlabel := spells_flatMap_escape label.toList
  have hpath := spells_flatMap_escape pathData.toList
  cases name with
  | none =>
    exact
      { name := hglyph
        label := .found hunicode hlabel (.other (hd.trans_ne hud.symm) .nil)
        pathData := .other (hunicode.trans_ne hud) (.found hd hpath .nil)
        glyphName := .other (hunicode.trans_ne hun) (.other (hd.trans_ne hdn) .nil) }
  | some name =>
    have hspells := spells_flatMap_escape name.toList
    exact
      { name := hglyph
        label := .found hunicode hlabel
          (.other (hd.trans_ne hud.symm) (.other (hname.trans_ne hun.symm) .nil))
        pathData := .other (hunicode.trans_ne hud)
          (.found hd hpath (.other (hname.trans_ne hdn.symm) .nil))
        glyphName := .other (hunicode.trans_ne hun)
          (.other (hd.trans_ne hdn) (.found hname hspells .nil)) }

end WrittenTag

/-! ## Items -/

/-- One element for each glyph, within another. -/
def Item.ofGlyphs (glyphs : List Glyph) : List Item :=
  .openTag WrittenTag.font.content ::
    (glyphs.map (fun g => .emptyTag (WrittenTag.ofGlyph g).content) ++
      .closeTag WrittenTag.font.content :: [])

theorem isDocument_ofGlyphs (glyphs : List Glyph) :
    IsDocument ((Item.ofGlyphs glyphs).flatMap Item.write) (Item.ofGlyphs glyphs) := by
  have hitems : ∀ item ∈ Item.ofGlyphs glyphs, item.IsLegible ∧ item.isText = false := by
    have hglyphs : ∀ item ∈ glyphs.map fun g => Item.emptyTag (WrittenTag.ofGlyph g).content,
        item.IsLegible ∧ item.isText = false :=
      List.forall_mem_map.mpr fun g _ => ⟨(WrittenTag.ofGlyph g).isLegible_emptyTag, rfl⟩
    have hclose : (Item.closeTag WrittenTag.font.content).IsLegible :=
      WrittenTag.font.isTagContent_content
    exact List.forall_mem_cons.mpr ⟨⟨WrittenTag.font.isLegible_openTag, rfl⟩,
      List.forall_mem_append.mpr ⟨hglyphs, List.forall_mem_singleton.mpr ⟨hclose, rfl⟩⟩⟩
  have hapart : (Item.ofGlyphs glyphs).Pairwise
      fun item next => (item.isText && next.isText) = false :=
    List.pairwise_of_forall_mem_list fun _ _ next hnext =>
      Bool.and_eq_false_imp.mpr fun _ => (hitems next hnext).2
  exact ⟨rfl, fun item hitem => (hitems item hitem).1, hapart.isChain⟩

theorem balanced_ofGlyphs (glyphs : List Glyph) : Balanced (Item.ofGlyphs glyphs) := by
  have hname : closingName WrittenTag.font.content = tagName WrittenTag.font.content := by
    decide +kernel
  have hinner : Balanced (glyphs.map fun g => .emptyTag (WrittenTag.ofGlyph g).content) := by
    induction glyphs with
    | nil => exact .nil
    | cons g glyphs ih => exact .plain trivial ih
  exact .element hname hinner .nil

theorem lists_ofGlyphs (glyphs : List Glyph) : Lists (Item.ofGlyphs glyphs) glyphs := by
  have hfont : localName (tagName WrittenTag.font.content) ≠ "glyph".toList := by decide +kernel
  have hopen : (Item.openTag WrittenTag.font.content).Describes none := by
    refine .other fun content hcontent => ?_
    obtain rfl : WrittenTag.font.content = content := Option.some.inj hcontent
    exact hfont
  have hclose : (Item.closeTag WrittenTag.font.content).Describes none := .other nofun
  refine .skip hopen ?_
  induction glyphs with
  | nil => exact .skip hclose .nil
  | cons g glyphs ih =>
    exact .glyph (.glyph (.inr rfl) (WrittenTag.says_ofGlyph g)) ih

/-- All glyphs can be written down. -/
theorem Lists.exists_document (glyphs : List Glyph) :
    ∃ (text : String) (items : List Item), IsDocument (dropByteOrderMark text.toList) items ∧
      Balanced items ∧ Lists items glyphs := by
  refine ⟨String.ofList ((Item.ofGlyphs glyphs).flatMap Item.write), Item.ofGlyphs glyphs, ?_,
    balanced_ofGlyphs glyphs, lists_ofGlyphs glyphs⟩
  rw [String.toList_ofList]
  exact isDocument_ofGlyphs glyphs

end Markup

end PiecewiseGlyph
