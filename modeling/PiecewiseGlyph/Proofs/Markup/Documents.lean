import Mathlib.Data.List.Chain
import Mathlib.Data.List.Forall2
import Mathlib.Data.List.ReduceOption
import PiecewiseGlyph.Font
import PiecewiseGlyph.Proofs.Markup.Items
import PiecewiseGlyph.Result

/-!
# Documents as rows of items

A text is a document if it can be cut into legible items, and then in one way only.

* `IsDocument` says that items make up a document; `IsDocument.cons` and `IsDocument.exists_read`
  say that they are the items which are read from it, one after the other;
* `IsDocument.unique`: a document has one row of items;
* `readFont_eq_ok_iff`: a font is read exactly if it is a document, each end tag has the name of the
  element that it closes, and each tag of a glyph can be read.
-/

namespace PiecewiseGlyph

namespace Markup

/-- The items of a text: each is legible, their written forms make up the text, and of two texts
next to each other one would be part of the other. -/
structure IsDocument (cs : List Char) (items : List Item) : Prop where
  written : items.flatMap Item.write = cs
  legible : ∀ item ∈ items, item.IsLegible
  apart : items.IsChain fun item next => (item.isText && next.isText) = false

instance (cs : List Char) (items : List Item) : Decidable (IsDocument cs items) :=
  decidable_of_iff (items.flatMap Item.write = cs ∧ (∀ item ∈ items, item.IsLegible) ∧
      items.IsChain fun item next => (item.isText && next.isText) = false)
    ⟨fun h => ⟨h.1, h.2.1, h.2.2⟩, fun h => ⟨h.written, h.legible, h.apart⟩⟩

/-! ## One item -/

namespace Item

theorem exists_write_eq {item : Item} (h : item.isText = false) :
    ∃ tail, item.write = '<' :: tail := by
  cases item with
  | text first more => cases h
  | _ => exact ⟨_, rfl⟩

/-- A text ends where another item begins, or with the document. -/
theorem read_text {first : Char} {more rest : List Char} (h : (text first more).IsLegible)
    (hrest : ∀ c ∈ rest.head?, c = '<') :
    read first (more ++ rest) = .ok (text first more, rest) := by
  obtain ⟨hfirst, hmore⟩ := h
  have hfree : ∀ c ∈ more, (c == '<') = false :=
    fun c hc => beq_eq_false_iff_ne.mpr fun heq => hmore (heq ▸ hc)
  rw [read, if_neg hfirst, Text.upTo_append hfree fun c hc => beq_iff_eq.mpr (hrest c hc)]

/-- What is read is legible, and behind a text another item begins or the document ends. -/
theorem isLegible_of_read {c : Char} {cs rest : List Char} {item : Item}
    (h : read c cs = .ok (item, rest)) :
    item.IsLegible ∧ (item.isText = true → ∀ d ∈ rest.head?, d = '<') := by
  rw [read] at h
  split at h
  · obtain ⟨hlegible, htext, -⟩ := readMarkup_eq_ok_iff.mp h
    exact ⟨hlegible, fun h => absurd (htext.symm.trans h) Bool.false_ne_true⟩
  · rename_i hc
    obtain ⟨rfl, rfl⟩ := Prod.mk.inj (Except.ok.inj h)
    refine ⟨⟨hc, fun hmem => ?_⟩, fun _ d hd => ?_⟩
    · have := Text.of_mem_upTo_fst hmem
      simp at this
    · obtain ⟨tail, htail⟩ := List.head?_eq_some_iff.mp hd
      have hbracket := Text.of_upTo_snd_cons (p := (· == '<')) htail
      exact beq_iff_eq.mp hbracket

end Item

/-! ## All items -/

namespace IsDocument

variable {c : Char} {cs rest : List Char} {item : Item} {items : List Item}

theorem nil : IsDocument [] [] := ⟨rfl, nofun, .nil⟩

/-- A document begins with a bracket if its first item is no text, and only then. -/
theorem head_eq (h : IsDocument cs items) (hc : cs.head? = some c) :
    ∃ first more, items = first :: more ∧ (first.isText = false ↔ c = '<') := by
  obtain ⟨tail, rfl⟩ := List.head?_eq_some_iff.mp hc
  cases items with
  | nil => cases h.written
  | cons first more =>
    refine ⟨first, more, rfl, ?_⟩
    have hwritten := h.written
    rw [List.flatMap_cons] at hwritten
    by_cases htext : first.isText = false
    · obtain ⟨tail', htail⟩ := Item.exists_write_eq htext
      rw [htail] at hwritten
      exact iff_of_true htext (List.cons.inj hwritten).1.symm
    · have hlegible := h.legible first List.mem_cons_self
      cases first with
      | text d more' =>
        refine iff_of_false htext ?_
        rw [← (List.cons.inj hwritten).1]
        exact hlegible.1
      | _ => exact absurd rfl htext

/-- A document begins with the item that is read first. -/
theorem cons (hread : Item.read c cs = .ok (item, rest)) (h : IsDocument rest items) :
    IsDocument (c :: cs) (item :: items) := by
  obtain ⟨hlegible, hend⟩ := Item.isLegible_of_read hread
  refine ⟨?_, List.forall_mem_cons.mpr ⟨hlegible, h.legible⟩, ?_⟩
  · rw [List.flatMap_cons, h.written, Item.eq_write_of_read hread]
  · cases items with
    | nil => exact .singleton item
    | cons next more =>
      refine .cons_cons (Bool.and_eq_false_imp.mpr fun htext => ?_) h.apart
      cases rest with
      | nil => exact absurd (List.append_eq_nil_iff.mp h.written).1 next.write_ne_nil
      | cons d rest =>
        obtain ⟨first, others, heq, hfirst⟩ := h.head_eq (c := d) rfl
        obtain ⟨rfl, -⟩ := List.cons.inj heq
        exact hfirst.mpr (hend htext d rfl)

/-- The first item of a document is read first, and what follows it is a document. -/
theorem exists_read (h : IsDocument (c :: cs) items) :
    ∃ item rest more, items = item :: more ∧ Item.read c cs = .ok (item, rest) ∧
      IsDocument rest more := by
  cases items with
  | nil => cases h.written
  | cons item more =>
    have hwritten := h.written
    rw [List.flatMap_cons] at hwritten
    have hmore : IsDocument (more.flatMap Item.write) more :=
      ⟨rfl, fun i hi => h.legible i (List.mem_cons_of_mem _ hi), h.apart.tail⟩
    have hlegible := h.legible item List.mem_cons_self
    refine ⟨item, more.flatMap Item.write, more, rfl, ?_, hmore⟩
    by_cases htext : item.isText = false
    · obtain ⟨tail, htail⟩ := Item.exists_write_eq htext
      obtain rfl : '<' = c := by
        rw [htail] at hwritten
        exact (List.cons.inj hwritten).1
      rw [Item.read, if_pos rfl, Item.readMarkup_eq_ok_iff]
      exact ⟨hlegible, htext, hwritten.symm⟩
    · cases item with
      | text first others =>
        obtain ⟨rfl, rfl⟩ := List.cons.inj hwritten
        refine Item.read_text hlegible fun d hd => ?_
        obtain ⟨next, others', rfl, hnext⟩ := hmore.head_eq hd
        cases h.apart with
        | cons_cons happart _ => exact hnext.mp happart
      | _ => exact absurd rfl htext

/-- A document has one row of items. -/
theorem unique {items' : List Item} (h : IsDocument cs items) (h' : IsDocument cs items') :
    items = items' := by
  induction items generalizing cs items' with
  | nil =>
    obtain rfl : [] = cs := h.written
    cases items' with
    | nil => rfl
    | cons item more => exact absurd (List.append_eq_nil_iff.mp h'.written).1 item.write_ne_nil
  | cons item more ih =>
    cases cs with
    | nil => exact absurd (List.append_eq_nil_iff.mp h.written).1 item.write_ne_nil
    | cons c cs =>
      obtain ⟨_, rest, _, heq, hread, hmore⟩ := h.exists_read
      obtain ⟨rfl, rfl⟩ := List.cons.inj heq
      obtain ⟨item', rest', more', rfl, hread', hmore'⟩ := h'.exists_read
      obtain ⟨rfl, rfl⟩ := Prod.mk.inj (Except.ok.inj (hread.symm.trans hread'))
      rw [ih hmore hmore']

end IsDocument

end Markup

/-! ## Fonts -/

open Markup

/-- The glyphs of a document are read exactly if its items nest and those of glyphs can be read. -/
theorem readGlyphs_eq_ok_iff {position : Nat} {names : List (List Char)} {cs : List Char}
    {glyphs : List Glyph} :
    readGlyphs position names cs = .ok glyphs ↔
      ∃ items left found, IsDocument cs items ∧ items.foldlM Item.nest names = .ok left ∧
        List.Forall₂ (fun item glyph? => item.glyph? = .ok glyph?) items found ∧
        glyphs = found.reduceOption := by
  fun_induction readGlyphs position names cs generalizing glyphs with
  | case1 position names =>
    constructor
    · intro h
      cases h
      exact ⟨[], names, [], .nil, rfl, .nil, rfl⟩
    · rintro ⟨items, left, found, hdocument, -, hfound, rfl⟩
      obtain rfl := hdocument.unique .nil
      cases hfound
      rfl
  | case2 position names c cs fault hread =>
    constructor
    · exact nofun
    · rintro ⟨items, left, found, hdocument, -⟩
      obtain ⟨item, rest, more, -, hread', -⟩ := hdocument.exists_read
      rw [hread] at hread'
      cases hread'
  | case3 position names c cs item rest hread ih =>
    constructor
    · intro h
      obtain ⟨names', hnest, h⟩ := bind_eq_ok.mp h
      obtain ⟨glyph?, hglyph, h⟩ := bind_eq_ok.mp h
      obtain ⟨others, hothers, h⟩ := bind_eq_ok.mp h
      cases h
      obtain ⟨items, left, found, hdocument, hleft, hfound, rfl⟩ := (ih names').mp hothers
      refine ⟨item :: items, left, glyph? :: found, hdocument.cons hread, ?_,
        .cons (mapError_eq_ok.mp hglyph) hfound, ?_⟩
      · exact bind_eq_ok.mpr ⟨names', mapError_eq_ok.mp hnest, hleft⟩
      · cases glyph? <;> rfl
    · rintro ⟨items, left, found, hdocument, hleft, hfound, rfl⟩
      obtain ⟨_, _, more, rfl, hread', hmore⟩ := hdocument.exists_read
      obtain ⟨rfl, rfl⟩ := Prod.mk.inj (Except.ok.inj (hread.symm.trans hread'))
      obtain ⟨names', hnest, hleft⟩ := bind_eq_ok.mp hleft
      cases hfound with
      | cons hglyph hfound =>
        rename_i glyph? found
        have hothers := (ih names').mpr ⟨more, left, found, hmore, hleft, hfound, rfl⟩
        refine bind_eq_ok.mpr ⟨names', mapError_eq_ok.mpr hnest, ?_⟩
        refine bind_eq_ok.mpr ⟨glyph?, mapError_eq_ok.mpr hglyph, ?_⟩
        refine bind_eq_ok.mpr ⟨_, hothers, ?_⟩
        cases glyph? <;> rfl

/-- The glyphs of a font, where no element is open at the start. -/
theorem readFont_eq_ok_iff {text : String} {glyphs : List Glyph} :
    readFont text = .ok glyphs ↔
      ∃ items left found, IsDocument (dropByteOrderMark text.toList) items ∧
        items.foldlM Item.nest [] = .ok left ∧
        List.Forall₂ (fun item glyph? => item.glyph? = .ok glyph?) items found ∧
        glyphs = found.reduceOption :=
  readGlyphs_eq_ok_iff

end PiecewiseGlyph
