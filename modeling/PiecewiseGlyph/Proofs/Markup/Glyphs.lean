import PiecewiseGlyph.Proofs.Markup.Nesting
import PiecewiseGlyph.Proofs.Markup.References
import PiecewiseGlyph.Proofs.Markup.Tags

/-!
# Glyphs among other items

Which glyphs a row of items has, with all the freedom that there is in writing their tags.

* `Gives` says what a row of attributes gives for a name, and `Item.Describes` which glyph an item
  is the tag of, if any;
* `Lists` lists the glyphs of a row of items, among items of all other kinds;
* `Lists.readFont_eq`: whatever the way in which they are written, these are the glyphs that are
  read.
-/

namespace PiecewiseGlyph

namespace Markup

/-! ## Tags -/

/-- What attributes give for a name: nothing, or the text that the only one with this local name
spells. -/
inductive Gives (name : String) : List Attribute → Option String → Prop
  | nil : Gives name [] none
  | other {a : Attribute} {as : List Attribute} {text? : Option String}
    (ha : localName a.key ≠ name.toList) (has : Gives name as text?) : Gives name (a :: as) text?
  | found {a : Attribute} {as : List Attribute} {text : String}
    (ha : localName a.key = name.toList) (htext : Spells text.toList a.value)
    (has : Gives name as none) : Gives name (a :: as) (some text)

/-- What the tag of a glyph gives for its three attributes. -/
structure WrittenTag.Says (tag : WrittenTag) (said : GlyphAttributes) : Prop where
  name : localName tag.name = "glyph".toList
  label : Gives "unicode" (tag.attributes.map WrittenAttribute.toAttribute) said.label
  pathData : Gives "d" (tag.attributes.map WrittenAttribute.toAttribute) said.pathData
  glyphName : Gives "glyph-name" (tag.attributes.map WrittenAttribute.toAttribute) said.name

/-- The glyph that an item is the tag of, if it has both a label and path data. -/
inductive Item.Describes : Item → Option Glyph → Prop
  | glyph {item : Item} {tag : WrittenTag} {label pathData : String} {name : Option String}
    (htag : item = .openTag tag.content ∨ item = .emptyTag tag.content)
    (hsaid : tag.Says ⟨some label, some pathData, name⟩) :
    Describes item (some ⟨label, pathData, name⟩)
  | incomplete {item : Item} {tag : WrittenTag} {label pathData name : Option String}
    (htag : item = .openTag tag.content ∨ item = .emptyTag tag.content)
    (hsaid : tag.Says ⟨label, pathData, name⟩) (hnone : label = none ∨ pathData = none) :
    Describes item none
  | other {item : Item}
    (h : ∀ content ∈ item.tag?, localName (tagName content) ≠ "glyph".toList) :
    Describes item none

/-- The glyphs that items describe, in order. -/
inductive Lists : List Item → List Glyph → Prop
  | nil : Lists [] []
  | glyph {item : Item} {items : List Item} {g : Glyph} {glyphs : List Glyph}
    (hitem : item.Describes (some g)) (hitems : Lists items glyphs) :
    Lists (item :: items) (g :: glyphs)
  | skip {item : Item} {items : List Item} {glyphs : List Glyph}
    (hitem : item.Describes none) (hitems : Lists items glyphs) : Lists (item :: items) glyphs

end Markup

open Markup

namespace GlyphAttributes

theorem map_resolve_of_spells {text : String} {value : List Char} (h : Spells text.toList value) :
    (Markup.resolve value).map String.ofList = .ok text := by
  rw [resolve_of_spells h]
  exact congrArg Except.ok String.ofList_toList

section Add

variable {a : Attribute} {text : String} (said : GlyphAttributes)

theorem add_label (ha : localName a.key = "unicode".toList) (htext : Spells text.toList a.value) :
    said.add a = .ok { said with label := some text } := by
  simp only [add, if_pos ha, map_resolve_of_spells htext]
  rfl

theorem add_pathData (ha : localName a.key = "d".toList) (htext : Spells text.toList a.value) :
    said.add a = .ok { said with pathData := some text } := by
  have hlabel : localName a.key ≠ "unicode".toList := ha ▸ by decide
  simp only [add, if_neg hlabel, if_pos ha, map_resolve_of_spells htext]
  rfl

theorem add_name (ha : localName a.key = "glyph-name".toList)
    (htext : Spells text.toList a.value) : said.add a = .ok { said with name := some text } := by
  have hlabel : localName a.key ≠ "unicode".toList := ha ▸ by decide
  have hdata : localName a.key ≠ "d".toList := ha ▸ by decide
  simp only [add, if_neg hlabel, if_neg hdata, if_pos ha, map_resolve_of_spells htext]
  rfl

/-- Other attributes say nothing. -/
theorem add_other (hlabel : localName a.key ≠ "unicode".toList)
    (hdata : localName a.key ≠ "d".toList) (hname : localName a.key ≠ "glyph-name".toList) :
    said.add a = .ok said := by
  simp only [add, if_neg hlabel, if_neg hdata, if_neg hname]

end Add

/-- Of the names that count, an attribute has one at most. -/
theorem addAll_of_gives {as : List Attribute} {label pathData name : Option String}
    (hlabel : Gives "unicode" as label) (hdata : Gives "d" as pathData)
    (hname : Gives "glyph-name" as name) (said : GlyphAttributes) :
    said.addAll as =
      .ok ⟨label.or said.label, pathData.or said.pathData, name.or said.name⟩ := by
  induction as generalizing said label pathData name with
  | nil =>
    cases hlabel
    cases hdata
    cases hname
    rfl
  | cons a as ih =>
    have hdu : "d".toList ≠ "unicode".toList := by decide
    have hnu : "glyph-name".toList ≠ "unicode".toList := by decide
    have hnd : "glyph-name".toList ≠ "d".toList := by decide
    cases hlabel with
    | found ha htext hlabel =>
      cases hdata with
      | found hb => exact absurd (hb.symm.trans ha) hdu
      | other _ hdata =>
        cases hname with
        | found hb => exact absurd (hb.symm.trans ha) hnu
        | other _ hname =>
          exact bind_eq_ok.mpr ⟨_, add_label said ha htext, ih hlabel hdata hname _⟩
    | other hlabel_ne hlabel =>
      cases hdata with
      | found ha htext hdata =>
        cases hname with
        | found hb => exact absurd (hb.symm.trans ha) hnd
        | other _ hname =>
          exact bind_eq_ok.mpr ⟨_, add_pathData said ha htext, ih hlabel hdata hname _⟩
      | other hdata_ne hdata =>
        cases hname with
        | found ha htext hname =>
          exact bind_eq_ok.mpr ⟨_, add_name said ha htext, ih hlabel hdata hname _⟩
        | other hname_ne hname =>
          have hadd := add_other said hlabel_ne hdata_ne hname_ne
          exact bind_eq_ok.mpr ⟨_, hadd, ih hlabel hdata hname _⟩

/-- What a well-formed tag says is taken in. -/
theorem ofTag_of_says {tag : WrittenTag} {said : GlyphAttributes} (h : tag.Says said) :
    ofTag tag.content = .ok said := by
  have hsaid : empty.addAll (tag.attributes.map WrittenAttribute.toAttribute) = .ok said := by
    rw [addAll_of_gives h.label h.pathData h.glyphName]
    simp [empty]
  rw [ofTag, tag.attributes_content]
  exact bind_eq_ok.mpr ⟨said, mapError_eq_ok.mpr hsaid, rfl⟩

end GlyphAttributes

namespace Markup

/-! ## Rows of items -/

theorem Item.glyph?_of_says {item : Item} {tag : WrittenTag} {said : GlyphAttributes}
    (htag : item = .openTag tag.content ∨ item = .emptyTag tag.content) (hsaid : tag.Says said) :
    item.glyph? = .ok said.glyph? := by
  have hcontent : item.tag? = some tag.content := by
    rcases htag with rfl | rfl <;> rfl
  simp only [Item.glyph?, hcontent, tag.tagName_content, if_pos hsaid.name,
    GlyphAttributes.ofTag_of_says hsaid]
  rfl

/-- The glyph that an item describes is read. -/
theorem Item.Describes.glyph?_eq {item : Item} {glyph? : Option Glyph}
    (h : item.Describes glyph?) : item.glyph? = .ok glyph? := by
  cases h with
  | glyph htag hsaid => exact Item.glyph?_of_says htag hsaid
  | @incomplete tag label pathData name htag hsaid hnone =>
    rw [Item.glyph?_of_says htag hsaid]
    rcases hnone with rfl | rfl
    · rfl
    · cases label <;> rfl
  | other h =>
    rw [Item.glyph?]
    split
    · rename_i content hcontent
      exact if_neg (h content hcontent)
    · rfl

/-- Each item gives its glyph, if it has one. -/
theorem Lists.exists_found {items : List Item} {glyphs : List Glyph} (h : Lists items glyphs) :
    ∃ found, List.Forall₂ (fun item glyph? => item.glyph? = .ok glyph?) items found ∧
      glyphs = found.reduceOption := by
  induction h with
  | nil => exact ⟨[], .nil, rfl⟩
  | @glyph _ _ g _ hitem _ ih =>
    obtain ⟨found, hfound, rfl⟩ := ih
    exact ⟨some g :: found, .cons hitem.glyph?_eq hfound, rfl⟩
  | skip hitem _ ih =>
    obtain ⟨found, hfound, rfl⟩ := ih
    exact ⟨none :: found, .cons hitem.glyph?_eq hfound, rfl⟩

/-- The glyphs of a balanced document are read. -/
theorem Lists.readFont_eq {text : String} {items : List Item} {glyphs : List Glyph}
    (hglyphs : Lists items glyphs) (hbalanced : Balanced items)
    (hdocument : IsDocument (dropByteOrderMark text.toList) items) :
    readFont text = .ok glyphs := by
  obtain ⟨found, hfound, rfl⟩ := hglyphs.exists_found
  exact readFont_eq_ok_iff.mpr
    ⟨items, [], found, hdocument, hbalanced.foldlM_nest [], hfound, rfl⟩

end Markup

end PiecewiseGlyph
