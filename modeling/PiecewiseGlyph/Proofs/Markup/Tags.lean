import Mathlib.Data.List.TakeWhile
import PiecewiseGlyph.Markup.Attribute
import PiecewiseGlyph.Proofs.Markup.Items

/-!
# Well-formed tags

The form of a tag with attributes, with all the freedom that there is in writing it: any space,
either quote, and anything but this quote in a value.

* `WrittenAttribute` and `WrittenTag` are the forms, each with the proofs that it is well formed;
* `WrittenTag.isLegible_openTag` and `WrittenTag.isLegible_emptyTag`: such a tag may stand in a
  document;
* `WrittenTag.attributes_content`: its attributes are read back, in order and without a fault.
-/

namespace PiecewiseGlyph.Markup

/-- Nothing but space. -/
def IsSpaces (cs : List Char) : Prop := ∀ c ∈ cs, isSpace c = true

/-- May the character stand in a name? Those that end or begin something else may not. -/
def isNameChar (c : Char) : Bool :=
  !(isSpace c || Item.isQuote c || "<>/=&!?".toList.contains c)

/-- A name of tags and attributes. -/
structure IsName (name : List Char) : Prop where
  ne_nil : name ≠ []
  isNameChar : ∀ c ∈ name, isNameChar c = true

instance (cs : List Char) : Decidable (IsSpaces cs) :=
  decidable_of_iff (cs.all isSpace = true) List.all_eq_true

instance (name : List Char) : Decidable (IsName name) :=
  decidable_of_iff (name ≠ [] ∧ name.all isNameChar = true)
    ⟨fun h => ⟨h.1, List.all_eq_true.mp h.2⟩, fun h => ⟨h.1, List.all_eq_true.mpr h.2⟩⟩

/-- An attribute with the space in and before it, and its quotes. -/
structure WrittenAttribute where
  before : List Char
  key : List Char
  afterKey : List Char
  afterEquals : List Char
  quote : Char
  value : List Char
  before_ne_nil : before ≠ []
  isSpaces_before : IsSpaces before
  isName_key : IsName key
  isSpaces_afterKey : IsSpaces afterKey
  isSpaces_afterEquals : IsSpaces afterEquals
  isQuote_quote : Item.isQuote quote = true
  quote_not_mem_value : quote ∉ value

/-- A tag with attributes, no two of which have the same key. -/
structure WrittenTag where
  name : List Char
  attributes : List WrittenAttribute
  atEnd : List Char
  isName_name : IsName name
  nodup_keys : (attributes.map WrittenAttribute.key).Nodup
  isSpaces_atEnd : IsSpaces atEnd

theorem isSpaces_nil : IsSpaces [] := nofun

theorem isSpaces_singleton : IsSpaces [' '] := by decide

theorem isQuote_double : Item.isQuote '"' = true := rfl

/-- An attribute without more space than is needed. -/
def WrittenAttribute.tight (key value : List Char) (quote : Char) (hkey : IsName key)
    (hquote : Item.isQuote quote = true) (hvalue : quote ∉ value) : WrittenAttribute where
  before := [' ']
  key := key
  afterKey := []
  afterEquals := []
  quote := quote
  value := value
  before_ne_nil := by decide
  isSpaces_before := isSpaces_singleton
  isName_key := hkey
  isSpaces_afterKey := isSpaces_nil
  isSpaces_afterEquals := isSpaces_nil
  isQuote_quote := hquote
  quote_not_mem_value := hvalue

/-- Key and value. -/
def WrittenAttribute.toAttribute (a : WrittenAttribute) : Attribute := ⟨a.key, a.value⟩

/-- The written form from the key on. -/
def WrittenAttribute.fromKey (a : WrittenAttribute) : List Char :=
  a.key ++ (a.afterKey ++ '=' :: (a.afterEquals ++ a.quote :: (a.value ++ [a.quote])))

/-- The written form. -/
def WrittenAttribute.write (a : WrittenAttribute) : List Char := a.before ++ a.fromKey

/-- What stands behind the name of the tag. -/
def WrittenTag.afterName (tag : WrittenTag) : List Char :=
  tag.attributes.flatMap WrittenAttribute.write ++ tag.atEnd

/-- What stands between the brackets. -/
def WrittenTag.content (tag : WrittenTag) : List Char := tag.name ++ tag.afterName

/-! ## Space and names -/

theorem skipSpace_append {cs : List Char} (h : IsSpaces cs) {c : Char} (hc : isSpace c = false)
    (rest : List Char) : skipSpace (cs ++ c :: rest) = c :: rest := by
  rw [skipSpace, List.dropWhile_append_of_pos h, List.dropWhile_cons_of_neg (by simp [hc])]

theorem skipSpace_eq_nil {cs : List Char} (h : IsSpaces cs) : skipSpace cs = [] := by
  rw [skipSpace, List.dropWhile_eq_nil_iff]
  exact h

theorem of_isSpace {c : Char} (h : isSpace c = true) :
    Item.isQuote c = false ∧ c ≠ '>' ∧ c ≠ '/' := by
  have h : ((c = ' ' ∨ c = '\r') ∨ c = '\n') ∨ c = '\t' := by simpa [isSpace] using h
  rcases h with ((rfl | rfl) | rfl) | rfl <;> decide

theorem of_isQuote {c : Char} (h : Item.isQuote c = true) : isSpace c = false ∧ c ≠ '/' := by
  have h : c = '"' ∨ c = '\x27' := by simpa [Item.isQuote] using h
  rcases h with rfl | rfl <;> decide

/-- A character of a name opens no item of another kind, and is no bracket or quote. -/
theorem of_isNameChar {c : Char} (h : isNameChar c = true) :
    (isSpace c = false ∧ Item.isQuote c = false) ∧ c ∉ "<>/=&!?".toList := by
  simpa [isNameChar] using h

theorem IsSpaces.isTagContent {cs : List Char} (h : IsSpaces cs) : IsTagContent cs :=
  isTagContent_of_forall fun c hc => ⟨(of_isSpace (h c hc)).1, (of_isSpace (h c hc)).2.1⟩

theorem IsName.isTagContent {cs : List Char} (h : IsName cs) : IsTagContent cs := by
  refine isTagContent_of_forall fun c hc => ?_
  obtain ⟨⟨-, hquote⟩, hmark⟩ := of_isNameChar (h.isNameChar c hc)
  refine ⟨hquote, ?_⟩
  rintro rfl
  exact hmark (by decide)

/-- A name ends at the space behind it, or at an equals sign. -/
theorem upTo_endsKey {name spaces : List Char} (hname : ∀ c ∈ name, isNameChar c = true)
    (hspaces : IsSpaces spaces) (rest : List Char) :
    Text.upTo Attribute.endsKey (name ++ (spaces ++ '=' :: rest)) =
      (name, spaces ++ '=' :: rest) := by
  have hkey : ∀ c ∈ name, Attribute.endsKey c = false := by
    intro c hc
    obtain ⟨⟨hspace, -⟩, hmark⟩ := of_isNameChar (hname c hc)
    have hequals : c ≠ '=' := by
      rintro rfl
      exact hmark (by decide)
    simp [Attribute.endsKey, hspace, hequals]
  refine Text.upTo_append hkey fun c hc => ?_
  cases spaces with
  | nil =>
    obtain rfl : '=' = c := Option.some.inj hc
    rfl
  | cons d spaces =>
    obtain rfl : d = c := Option.some.inj hc
    simp [Attribute.endsKey, hspaces d List.mem_cons_self]

theorem getLast?_append_ne {cs ds : List Char} {c : Char} (hcs : cs.getLast? ≠ some c)
    (hds : ds.getLast? ≠ some c) : (cs ++ ds).getLast? ≠ some c := by
  rw [List.getLast?_append]
  cases hlast : ds.getLast? with
  | none => exact hcs
  | some d =>
    rw [hlast] at hds
    exact hds

/-! ## Attributes -/

namespace WrittenAttribute

variable (a : WrittenAttribute)

theorem isTagContent_write : IsTagContent a.write := by
  have hvalue : IsTagContent (a.quote :: (a.value ++ [a.quote])) :=
    .quoted a.isQuote_quote a.quote_not_mem_value .nil
  have hequals : IsTagContent ('=' :: (a.afterEquals ++ a.quote :: (a.value ++ [a.quote]))) :=
    .plain rfl (by decide) (a.isSpaces_afterEquals.isTagContent.append hvalue)
  exact a.isSpaces_before.isTagContent.append
    (a.isName_key.isTagContent.append (a.isSpaces_afterKey.isTagContent.append hequals))

/-- An attribute ends with its quote. -/
theorem getLast?_write_ne : a.write.getLast? ≠ some '/' := by
  have hwrite : a.write = a.before ++ (a.key ++ (a.afterKey ++ '=' :: (a.afterEquals ++
      a.quote :: a.value))) ++ [a.quote] := by
    simp [write, fromKey]
  rw [hwrite, List.getLast?_concat]
  exact fun h => (of_isQuote a.isQuote_quote).2 (Option.some.inj h)

/-- The value ends at its quote. -/
theorem readValue_eq (size : Nat) (rest : List Char) :
    Attribute.readValue size (a.afterEquals ++ a.quote :: (a.value ++ a.quote :: rest)) =
      .ok (a.value, rest) := by
  have hskip := skipSpace_append a.isSpaces_afterEquals (of_isQuote a.isQuote_quote).1
    (a.value ++ a.quote :: rest)
  have hcut : Text.upTo (· == a.quote) (a.value ++ a.quote :: rest) = (a.value, a.quote :: rest) :=
    Text.upTo_append_cons
      (fun _ hc => beq_eq_false_iff_ne.mpr (ne_of_mem_of_not_mem hc a.quote_not_mem_value))
      (beq_self_eq_true _) rest
  simp only [Attribute.readValue, hskip, a.isQuote_quote, hcut, if_true]

/-- An attribute with a new key is read. -/
theorem read_eq (size : Nat) {seen : List (List Char × Nat)} (hseen : seen.lookup a.key = none)
    (rest : List Char) :
    ∃ c cs, a.fromKey ++ rest = c :: cs ∧ isSpace c = false ∧
      Attribute.read size seen c cs = .ok (a.toAttribute, rest) := by
  obtain ⟨c, more, hkey⟩ := List.exists_cons_of_ne_nil a.isName_key.ne_nil
  have hchars := a.isName_key.isNameChar
  rw [hkey] at hchars
  have hequals := skipSpace_append a.isSpaces_afterKey (c := '=') rfl
    (a.afterEquals ++ a.quote :: (a.value ++ a.quote :: rest))
  refine ⟨c, more ++ (a.afterKey ++ '=' ::
      (a.afterEquals ++ a.quote :: (a.value ++ a.quote :: rest))),
    ?_, (of_isNameChar (hchars c List.mem_cons_self)).1.1, ?_⟩
  · simp [fromKey, hkey]
  · have hcut := upTo_endsKey (fun d hd => hchars d (List.mem_cons_of_mem c hd))
      a.isSpaces_afterKey (a.afterEquals ++ a.quote :: (a.value ++ a.quote :: rest))
    rw [hkey] at hseen
    simp only [Attribute.read, hcut, hequals, hseen, a.readValue_eq]
    rw [toAttribute, hkey]
    rfl

end WrittenAttribute

/-- Attributes with different keys, none given before, are read in order. -/
theorem attributesFrom_flatMap_write {as : List WrittenAttribute} {atEnd : List Char}
    (hnodup : (as.map WrittenAttribute.key).Nodup) (hend : IsSpaces atEnd) (size : Nat)
    {seen : List (List Char × Nat)} (hseen : ∀ a ∈ as, seen.lookup a.key = none) :
    attributesFrom size seen (as.flatMap WrittenAttribute.write ++ atEnd) =
      (as.map WrittenAttribute.toAttribute, none) := by
  induction as generalizing seen with
  | nil =>
    unfold attributesFrom
    split
    · rfl
    · rename_i heq
      cases (skipSpace_eq_nil hend).symm.trans heq
  | cons a as ih =>
    obtain ⟨hnew, hnodup⟩ := List.nodup_cons.mp hnodup
    obtain ⟨hfirst, hothers⟩ := List.forall_mem_cons.mp hseen
    obtain ⟨c, cs, hcs, hc, hread⟩ :=
      a.read_eq size hfirst (as.flatMap WrittenAttribute.write ++ atEnd)
    have hskip : skipSpace ((a :: as).flatMap WrittenAttribute.write ++ atEnd) = c :: cs := by
      rw [List.flatMap_cons, List.append_assoc, WrittenAttribute.write, List.append_assoc, hcs]
      exact skipSpace_append a.isSpaces_before hc cs
    have hseen' (position : Nat) :
        ∀ b ∈ as, ((a.toAttribute.key, position) :: seen).lookup b.key = none := by
      intro b hb
      have hne : (b.key == a.toAttribute.key) = false :=
        beq_eq_false_iff_ne.mpr (ne_of_mem_of_not_mem (List.mem_map_of_mem hb) hnew)
      rw [List.lookup_cons, hne]
      exact hothers b hb
    unfold attributesFrom
    split
    · rename_i heq
      cases hskip.symm.trans heq
    · rename_i heq
      cases hskip.symm.trans heq
      split
      · rename_i heq
        cases hread.symm.trans heq
      · rename_i heq
        cases hread.symm.trans heq
        dsimp only
        rw [ih hnodup (hseen' _)]
        rfl

/-! ## Tags -/

namespace WrittenTag

variable (tag : WrittenTag)

/-- The name is followed by space, or by nothing. -/
theorem isSpace_head?_afterName : ∀ c ∈ tag.afterName.head?, isSpace c = true := by
  intro c hc
  rw [afterName] at hc
  cases hattributes : tag.attributes with
  | nil =>
    rw [hattributes] at hc
    exact tag.isSpaces_atEnd c (List.mem_of_head? hc)
  | cons a as =>
    obtain ⟨d, more, hbefore⟩ := List.exists_cons_of_ne_nil a.before_ne_nil
    rw [hattributes, List.flatMap_cons, WrittenAttribute.write, hbefore] at hc
    obtain rfl : d = c := Option.some.inj hc
    exact a.isSpaces_before d (hbefore ▸ List.mem_cons_self)

theorem upTo_isSpace_content : Text.upTo isSpace tag.content = (tag.name, tag.afterName) := by
  have hname : ∀ c ∈ tag.name, isSpace c = false :=
    fun c hc => (of_isNameChar (tag.isName_name.isNameChar c hc)).1.1
  exact Text.upTo_append hname tag.isSpace_head?_afterName

theorem tagName_content : tagName tag.content = tag.name := by
  rw [tagName, upTo_isSpace_content]

/-- The attributes are read back, in order. -/
theorem attributes_content :
    Markup.attributes tag.content = (tag.attributes.map WrittenAttribute.toAttribute, none) := by
  rw [Markup.attributes, upTo_isSpace_content]
  exact attributesFrom_flatMap_write tag.nodup_keys tag.isSpaces_atEnd _ fun _ _ => rfl

theorem isTagContent_content : IsTagContent tag.content := by
  have hattributes : IsTagContent (tag.attributes.flatMap WrittenAttribute.write) := by
    induction tag.attributes with
    | nil => exact .nil
    | cons a as ih => exact a.isTagContent_write.append ih
  exact tag.isName_name.isTagContent.append
    (hattributes.append tag.isSpaces_atEnd.isTagContent)

theorem startsTag_content : Item.StartsTag tag.content := by
  obtain ⟨c, more, hname⟩ := List.exists_cons_of_ne_nil tag.isName_name.ne_nil
  have hc := tag.isName_name.isNameChar
  rw [hname] at hc
  intro d hd
  rw [content, hname] at hd
  obtain rfl : c = d := Option.some.inj hd
  obtain ⟨-, hmark⟩ := of_isNameChar (hc c List.mem_cons_self)
  refine ⟨?_, ?_, ?_⟩ <;>
  · rintro rfl
    exact hmark (by decide)

theorem content_ne_nil : tag.content ≠ [] :=
  List.append_ne_nil_of_left_ne_nil tag.isName_name.ne_nil _

/-- The tag does not end like an empty one. -/
theorem getLast?_content_ne : tag.content.getLast? ≠ some '/' := by
  have hname : tag.name.getLast? ≠ some '/' := by
    intro h
    have hchar := tag.isName_name.isNameChar '/' (List.mem_of_getLast? h)
    cases hchar
  have hspaces : tag.atEnd.getLast? ≠ some '/' := by
    intro h
    have hspace := tag.isSpaces_atEnd '/' (List.mem_of_getLast? h)
    cases hspace
  have hattributes : (tag.attributes.flatMap WrittenAttribute.write).getLast? ≠ some '/' := by
    induction tag.attributes with
    | nil => nofun
    | cons a as ih => exact getLast?_append_ne a.getLast?_write_ne ih
  exact getLast?_append_ne hname (getLast?_append_ne hattributes hspaces)

/-- The tag may open an element in a document. -/
theorem isLegible_openTag : (Item.openTag tag.content).IsLegible :=
  ⟨tag.isTagContent_content, tag.startsTag_content, tag.getLast?_content_ne⟩

/-- The tag may be an element in a document. -/
theorem isLegible_emptyTag : (Item.emptyTag tag.content).IsLegible := by
  have hslash : IsTagContent ['/'] := .plain rfl (by decide) .nil
  exact ⟨tag.isTagContent_content.append hslash, tag.startsTag_content, tag.content_ne_nil⟩

end WrittenTag

end PiecewiseGlyph.Markup
