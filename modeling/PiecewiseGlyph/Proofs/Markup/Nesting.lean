import PiecewiseGlyph.Proofs.Markup.Documents

/-!
# Open elements

End tags have to match the start tags before them, but nothing has to be closed when a document
ends.

* `Balanced` says that every element is closed by an end tag with its name;
* `LeavesOpen` lists the elements without an end tag, and `foldlM_nest_eq_ok_iff` says that they are
  those that the reader keeps;
* `readFont_eq_ok_iff_leavesOpen`: a document is accepted whatever it leaves open, and is balanced
  only if that is nothing. `not_balanced_of_readFont` is a font that breaks off.
-/

namespace PiecewiseGlyph

namespace Markup

/-- Does the item neither open nor close an element? -/
def Item.IsPlain : Item → Prop
  | openTag _ | closeTag _ => False
  | _ => True

/-- Every element is closed, by an end tag with its name. -/
inductive Balanced : List Item → Prop
  | nil : Balanced []
  | plain {item : Item} {rest : List Item} (hplain : item.IsPlain) (hrest : Balanced rest) :
    Balanced (item :: rest)
  | element {content ending : List Char} {inner rest : List Item}
    (hname : closingName ending = tagName content) (hinner : Balanced inner)
    (hrest : Balanced rest) :
    Balanced (.openTag content :: (inner ++ .closeTag ending :: rest))

/-- Every element is closed but those with the names given, innermost first. -/
inductive LeavesOpen : List (List Char) → List Item → Prop
  | nothing {items : List Item} (hitems : Balanced items) : LeavesOpen [] items
  | element {names : List (List Char)} {content : List Char} {before inner : List Item}
    (hbefore : LeavesOpen names before) (hinner : Balanced inner) :
    LeavesOpen (tagName content :: names) (before ++ .openTag content :: inner)

/-! ## Rows of items -/

theorem Balanced.append {xs ys : List Item} (hxs : Balanced xs) (hys : Balanced ys) :
    Balanced (xs ++ ys) := by
  induction hxs with
  | nil => exact hys
  | plain hplain _ ih => exact .plain hplain ih
  | element hname hinner _ _ ih =>
    rw [List.cons_append, List.append_assoc, List.cons_append]
    exact .element hname hinner ih

theorem LeavesOpen.append {names : List (List Char)} {xs ys : List Item}
    (hxs : LeavesOpen names xs) (hys : Balanced ys) : LeavesOpen names (xs ++ ys) := by
  cases hxs with
  | nothing hxs => exact .nothing (hxs.append hys)
  | element hbefore hinner =>
    rw [List.append_assoc, List.cons_append]
    exact .element hbefore (hinner.append hys)

/-- A balanced row leaves the open elements as they are. -/
theorem Balanced.foldlM_nest {items : List Item} (h : Balanced items) (names : List (List Char)) :
    items.foldlM Item.nest names = .ok names := by
  induction h generalizing names with
  | nil => rfl
  | @plain item rest hplain _ ih =>
    refine bind_eq_ok.mpr ⟨names, ?_, ih names⟩
    cases item <;> first | rfl | cases hplain
  | @element content ending inner rest hname _ _ ihinner ihrest =>
    have hnest : (Item.closeTag ending).nest (tagName content :: names) = .ok names := if_pos hname
    refine bind_eq_ok.mpr ⟨tagName content :: names, rfl, ?_⟩
    rw [List.foldlM_append]
    refine bind_eq_ok.mpr ⟨tagName content :: names, ihinner _, ?_⟩
    exact bind_eq_ok.mpr ⟨names, hnest, ihrest names⟩

/-- One item more. The reader's list of names keeps to the elements that are left open. -/
theorem LeavesOpen.concat {names left : List (List Char)} {items : List Item} {item : Item}
    (h : LeavesOpen names items) (hnest : item.nest names = .ok left) :
    LeavesOpen left (items ++ [item]) := by
  cases item with
  | openTag content =>
    cases hnest
    exact .element h .nil
  | closeTag ending =>
    cases h with
    | nothing => cases hnest
    | @element names content before inner hbefore hinner =>
      rw [Item.nest] at hnest
      split at hnest
      · rename_i hname
        cases hnest
        rw [List.append_assoc, List.cons_append]
        exact hbefore.append (.element hname hinner .nil)
      · cases hnest
  | _ =>
    cases hnest
    exact h.append (.plain trivial .nil)

/-- The names that the reader keeps are those of the elements that are left open. -/
theorem foldlM_nest_eq_ok_iff {items : List Item} {names : List (List Char)} :
    items.foldlM Item.nest [] = .ok names ↔ LeavesOpen names items := by
  constructor
  · intro h
    induction items using List.reverseRecOn generalizing names with
    | nil =>
      cases h
      exact .nothing .nil
    | append_singleton items item ih =>
      rw [List.foldlM_append] at h
      obtain ⟨before, hbefore, h⟩ := bind_eq_ok.mp h
      obtain ⟨left, hnest, h⟩ := bind_eq_ok.mp h
      cases h
      exact (ih hbefore).concat hnest
  · intro h
    induction h with
    | nothing hitems => exact hitems.foldlM_nest []
    | element _ hinner ih =>
      rw [List.foldlM_append, ih]
      exact bind_eq_ok.mpr ⟨_, rfl, hinner.foldlM_nest _⟩

/-- A row is balanced exactly if it leaves nothing open. -/
theorem LeavesOpen.balanced_iff {names : List (List Char)} {items : List Item}
    (h : LeavesOpen names items) : Balanced items ↔ names = [] := by
  constructor
  · intro hbalanced
    have hnames := (foldlM_nest_eq_ok_iff.mpr h).symm.trans (hbalanced.foldlM_nest [])
    exact Except.ok.inj hnames
  · rintro rfl
    cases h with
    | nothing hitems => exact hitems

/-! ## Documents -/

/-- A document is balanced exactly if its items leave nothing open. -/
theorem IsDocument.exists_balanced_iff {cs : List Char} {names : List (List Char)}
    {items : List Item} (hdocument : IsDocument cs items) (hopen : LeavesOpen names items) :
    (∃ items', IsDocument cs items' ∧ Balanced items') ↔ names = [] := by
  rw [← hopen.balanced_iff]
  constructor
  · rintro ⟨items', hdocument', hbalanced⟩
    rwa [hdocument.unique hdocument']
  · intro hbalanced
    exact ⟨items, hdocument, hbalanced⟩

end Markup

open Markup

/-- **What a font may leave open.** A text is read as a font exactly if it is a row of legible items
in which each end tag has the name of the innermost open element, and in which each tag of a glyph
can be read. Elements may be left open, and just then the document is not balanced. -/
theorem readFont_eq_ok_iff_leavesOpen (text : String) :
    (∀ glyphs, readFont text = .ok glyphs ↔
      ∃ items names found, IsDocument (dropByteOrderMark text.toList) items ∧
        LeavesOpen names items ∧
        List.Forall₂ (fun item glyph? => item.glyph? = .ok glyph?) items found ∧
        glyphs = found.reduceOption) ∧
      ∀ items names, IsDocument (dropByteOrderMark text.toList) items → LeavesOpen names items →
        ((∃ items', IsDocument (dropByteOrderMark text.toList) items' ∧ Balanced items') ↔
          names = []) := by
  refine ⟨fun glyphs => ?_, fun items names hdocument hopen => hdocument.exists_balanced_iff hopen⟩
  simp only [readFont_eq_ok_iff, foldlM_nest_eq_ok_iff]

/-! A font that breaks off behind its first glyph. -/

/-- The text of the font. -/
def brokenOff : String := "<font><glyph unicode='A' d='M0 0h1'/>"

/-- Its items: the element that is left open, and the glyph. -/
def brokenOffItems : List Item :=
  [.openTag "font".toList, .emptyTag "glyph unicode='A' d='M0 0h1'".toList]

theorem readFont_brokenOff : readFont brokenOff = .ok [⟨"A", "M0 0h1", none⟩] := by
  decide +kernel

theorem isDocument_brokenOff :
    IsDocument (dropByteOrderMark brokenOff.toList) brokenOffItems := by
  decide +kernel

theorem leavesOpen_brokenOff : LeavesOpen ["font".toList] brokenOffItems := by
  have hglyph : Balanced [.emptyTag "glyph unicode='A' d='M0 0h1'".toList] := .plain trivial .nil
  have hfont : tagName "font".toList = "font".toList := by decide +kernel
  have hopen : LeavesOpen [tagName "font".toList] ([] ++ brokenOffItems) :=
    .element (.nothing .nil) hglyph
  rwa [hfont] at hopen

/-- Its one glyph is read, and it is not balanced. -/
theorem readFont_eq_ok_iff_leavesOpen_brokenOff :
    (∃ items names found, IsDocument (dropByteOrderMark brokenOff.toList) items ∧
      LeavesOpen names items ∧
      List.Forall₂ (fun item glyph? => item.glyph? = .ok glyph?) items found ∧
      found.reduceOption = [⟨"A", "M0 0h1", none⟩]) ∧
      ¬ ∃ items, IsDocument (dropByteOrderMark brokenOff.toList) items ∧ Balanced items := by
  obtain ⟨hread, hbalanced⟩ := readFont_eq_ok_iff_leavesOpen brokenOff
  obtain ⟨items, names, found, hdocument, hopen, hfound, hglyphs⟩ :=
    (hread _).mp readFont_brokenOff
  refine ⟨⟨items, names, found, hdocument, hopen, hfound, hglyphs.symm⟩, fun h => ?_⟩
  have hnames := (hbalanced _ _ isDocument_brokenOff leavesOpen_brokenOff).mp h
  cases hnames

/-- Being accepted does not make a document balanced. -/
theorem not_balanced_of_readFont :
    ¬ ∀ text glyphs, readFont text = .ok glyphs →
      ∃ items, IsDocument (dropByteOrderMark text.toList) items ∧ Balanced items := by
  intro h
  have hnames := (isDocument_brokenOff.exists_balanced_iff leavesOpen_brokenOff).mp
    (h brokenOff _ readFont_brokenOff)
  cases hnames

end PiecewiseGlyph
