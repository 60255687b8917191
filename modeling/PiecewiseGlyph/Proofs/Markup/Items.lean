import Mathlib.Data.List.Infix
import PiecewiseGlyph.Markup.Item

/-!
# The form of items

What may stand between the delimiters of an item, so that the item ends where it should.

* `Text.splitAtWord?_eq_some_iff`: a text is cut at a word that does not occur before;
* `IsTagContent` and `Closes` are the forms of what `splitTag?` and `splitBalanced?` cut off;
* `Item.IsLegible` is the form of an item, and `Item.readMarkup_eq_ok_iff` says that exactly the
  legible items are read, from their written form.
-/

namespace PiecewiseGlyph

/-! ## Words -/

namespace Text

variable {α : Type} [DecidableEq α] {word xs before rest : List α}

/-- The word does not occur before the cut. -/
theorem not_isInfix_of_splitAtWord? (hword : word ≠ [])
    (h : splitAtWord? word xs = some (before, rest)) : ¬ word <:+: before := by
  induction xs generalizing before with
  | nil =>
    simp only [splitAtWord?, Option.map_eq_some_iff] at h
    obtain ⟨_, -, h⟩ := h
    obtain ⟨rfl, rfl⟩ := Prod.mk.inj h
    simpa using hword
  | cons x xs ih =>
    unfold splitAtWord? at h
    split at h
    · obtain ⟨rfl, rfl⟩ := Prod.mk.inj (Option.some.inj h)
      simpa using hword
    · rename_i hnone
      obtain ⟨⟨more, rest'⟩, hs, h⟩ := Option.map_eq_some_iff.mp h
      obtain ⟨rfl, rfl⟩ := Prod.mk.inj h
      intro hoccurs
      rcases List.infix_cons_iff.mp hoccurs with ⟨tail, htail⟩ | hoccurs
      · have hfound : dropWord? word (x :: xs) = some (tail ++ (word ++ rest')) := by
          rw [dropWord?_eq_some_iff, eq_of_splitAtWord? hs, ← List.append_assoc word, htail,
            List.cons_append]
        rw [hfound] at hnone
        cases hnone
      · exact ih hs hoccurs

/-- A word whose last character is not among its others does not overlap itself, so that it begins
nowhere before the cut. -/
theorem dropWord?_eq_none {init : List α} {last x : α} (hlast : last ∉ init)
    (habsent : ¬ init ++ [last] <:+: x :: before) :
    dropWord? (init ++ [last]) (x :: before ++ (init ++ [last] ++ rest)) = none := by
  rw [Option.eq_none_iff_forall_ne_some]
  intro tail htail
  rw [dropWord?_eq_some_iff] at htail
  rcases List.append_eq_append_iff.mp htail with ⟨overlap, hword, htail⟩ | ⟨gap, hbefore, -⟩
  · rcases List.eq_nil_or_concat overlap with rfl | ⟨middle, e, rfl⟩
    · exact habsent ⟨[], [], by simpa using hword⟩
    · -- the overlap ends in the last character, and so can only be the whole word
      rw [List.concat_eq_append, ← List.append_assoc] at hword
      obtain ⟨hinit, hlast'⟩ := List.append_inj' hword rfl
      obtain rfl : last = e := List.singleton_inj.mp hlast'
      have hmiddle : last ∉ middle := fun h => hlast (hinit ▸ List.mem_append_right _ h)
      rw [List.concat_eq_append, List.append_assoc, List.append_assoc, List.singleton_append,
        List.singleton_append] at htail
      have hcut := congrArg (fun cs => (upTo (· == last) cs).1) htail
      have hne : ∀ {cs : List α}, last ∉ cs → ∀ c ∈ cs, (c == last) = false :=
        fun h c hc => beq_eq_false_iff_ne.mpr fun heq => h (heq ▸ hc)
      simp only [upTo_append_cons (hne hlast) (beq_self_eq_true last),
        upTo_append_cons (hne hmiddle) (beq_self_eq_true last)] at hcut
      have hlength := congrArg List.length hinit
      rw [hcut, List.length_append, List.length_cons] at hlength
      omega
  · exact habsent ⟨[], gap, by simpa using hbefore.symm⟩

/-- The word is found where it begins the text. -/
theorem splitAtWord?_self_append (hword : word ≠ []) (rest : List α) :
    splitAtWord? word (word ++ rest) = some ([], rest) := by
  cases word with
  | nil => exact absurd rfl hword
  | cons w ws => rw [List.cons_append, splitAtWord?, ← List.cons_append, dropWord?_append]

theorem splitAtWord?_eq_some_iff {init : List α} {last : α} (hlast : last ∉ init) :
    splitAtWord? (init ++ [last]) xs = some (before, rest) ↔
      ¬ init ++ [last] <:+: before ∧ xs = before ++ (init ++ [last] ++ rest) := by
  constructor
  · intro h
    exact ⟨not_isInfix_of_splitAtWord? (by simp) h, eq_of_splitAtWord? h⟩
  · rintro ⟨habsent, rfl⟩
    induction before with
    | nil => exact splitAtWord?_self_append (by simp) rest
    | cons x before ih =>
      rw [List.cons_append, splitAtWord?, ← List.cons_append, dropWord?_eq_none hlast habsent,
        ih fun h => habsent (List.infix_cons h)]
      rfl

end Text

namespace Markup

/-! ## Quotes and brackets -/

/-- Quotes are closed, and a closing bracket stands only in quotes. -/
inductive IsTagContent : List Char → Prop
  | nil : IsTagContent []
  | plain {c : Char} {rest : List Char} (hquote : Item.isQuote c = false) (hbracket : c ≠ '>')
    (hrest : IsTagContent rest) : IsTagContent (c :: rest)
  | quoted {quote : Char} {inner rest : List Char} (hquote : Item.isQuote quote = true)
    (hinner : quote ∉ inner) (hrest : IsTagContent rest) :
    IsTagContent (quote :: (inner ++ quote :: rest))

/-- All opening brackets in a text are closed in it, and so are as many from before. -/
inductive Closes : Nat → List Char → Prop
  | nil : Closes 0 []
  | plain {depth : Nat} {c : Char} {rest : List Char} (hopen : c ≠ '<') (hclose : c ≠ '>')
    (hrest : Closes depth rest) : Closes depth (c :: rest)
  | opening {depth : Nat} {rest : List Char} (hrest : Closes (depth + 1) rest) :
    Closes depth ('<' :: rest)
  | closing {depth : Nat} {rest : List Char} (hrest : Closes depth rest) :
    Closes (depth + 1) ('>' :: rest)

theorem IsTagContent.append {cs ds : List Char} (h : IsTagContent cs) (h' : IsTagContent ds) :
    IsTagContent (cs ++ ds) := by
  induction h with
  | nil => exact h'
  | plain hquote hbracket _ ih => exact .plain hquote hbracket ih
  | quoted hquote hinner _ ih =>
    rw [List.cons_append, List.append_assoc, List.cons_append]
    exact .quoted hquote hinner ih

/-- Text without quotes and brackets may stand in a tag. -/
theorem isTagContent_of_forall {cs : List Char}
    (h : ∀ c ∈ cs, Item.isQuote c = false ∧ c ≠ '>') : IsTagContent cs := by
  induction cs with
  | nil => exact .nil
  | cons c cs ih =>
    obtain ⟨hc, hcs⟩ := List.forall_mem_cons.mp h
    exact .plain hc.1 hc.2 (ih hcs)

namespace Item

theorem splitTag?_quoted {quote : Char} {inner : List Char} (hinner : quote ∉ inner)
    (rest : List Char) :
    splitTag? (some quote) (inner ++ quote :: rest) =
      (splitTag? none rest).map fun (content, rest) => (inner ++ quote :: content, rest) := by
  induction inner with
  | nil => simp [splitTag?]
  | cons c inner ih =>
    have hc : c ≠ quote := fun hc => hinner (hc ▸ List.mem_cons_self)
    rw [List.cons_append, splitTag?, if_neg hc, ih fun h => hinner (List.mem_cons_of_mem c h),
      Option.map_map]
    rfl

theorem splitTag?_append {content : List Char} (h : IsTagContent content) (rest : List Char) :
    splitTag? none (content ++ '>' :: rest) = some (content, rest) := by
  induction h with
  | nil => simp [splitTag?]
  | plain hquote hbracket _ ih => simp [splitTag?, hquote, hbracket, ih]
  | quoted hquote hinner _ ih =>
    have hbracket : ∀ c, isQuote c = true → c ≠ '>' := by
      rintro c hc rfl
      cases hc
    rw [List.cons_append, List.append_assoc, List.cons_append, splitTag?,
      if_neg (hbracket _ hquote), if_pos hquote, splitTag?_quoted hinner, ih]
    rfl

/-- Within quotes, the cut is behind the closing quote. -/
theorem isTagContent_of_splitTag? {within : Option Char} {cs content rest : List Char}
    (h : splitTag? within cs = some (content, rest)) :
    match within with
    | none => IsTagContent content
    | some quote => ∃ inner more, content = inner ++ quote :: more ∧ quote ∉ inner ∧
        IsTagContent more := by
  induction cs generalizing within content with
  | nil => simp [splitTag?] at h
  | cons c cs ih =>
    cases within with
    | none =>
      rw [splitTag?] at h
      split at h
      · obtain ⟨rfl, rfl⟩ := Prod.mk.inj (Option.some.inj h)
        exact .nil
      · rename_i hbracket
        obtain ⟨⟨more, rest'⟩, hs, h⟩ := Option.map_eq_some_iff.mp h
        obtain ⟨rfl, rfl⟩ := Prod.mk.inj h
        split at hs
        · rename_i hquote
          obtain ⟨inner, more', rfl, hinner, hmore⟩ := ih hs
          exact .quoted hquote hinner hmore
        · rename_i hquote
          exact .plain (by simpa using hquote) hbracket (ih hs)
    | some quote =>
      rw [splitTag?] at h
      obtain ⟨⟨more, rest'⟩, hs, h⟩ := Option.map_eq_some_iff.mp h
      obtain ⟨rfl, rfl⟩ := Prod.mk.inj h
      split at hs
      · rename_i hc
        subst hc
        exact ⟨[], more, rfl, List.not_mem_nil, ih hs⟩
      · rename_i hc
        obtain ⟨inner, more', rfl, hinner, hmore⟩ := ih hs
        refine ⟨c :: inner, more', rfl, fun h => ?_, hmore⟩
        rcases List.mem_cons.mp h with h | h
        · exact hc h.symm
        · exact hinner h

theorem splitTag?_eq_some_iff {cs content rest : List Char} :
    splitTag? none cs = some (content, rest) ↔
      IsTagContent content ∧ cs = content ++ '>' :: rest := by
  constructor
  · intro h
    exact ⟨isTagContent_of_splitTag? h, eq_of_splitTag? h⟩
  · rintro ⟨h, rfl⟩
    exact splitTag?_append h rest

theorem splitBalanced?_eq_some_iff {depth : Nat} {cs content rest : List Char} :
    splitBalanced? depth cs = some (content, rest) ↔
      Closes depth content ∧ cs = content ++ '>' :: rest := by
  constructor
  · intro h
    refine ⟨?_, eq_of_splitBalanced? h⟩
    induction cs generalizing depth content with
    | nil => simp [splitBalanced?] at h
    | cons c cs ih =>
      rw [splitBalanced?] at h
      split at h
      · rename_i hc
        obtain ⟨rfl, rfl⟩ := Prod.mk.inj (Option.some.inj h)
        exact hc.2 ▸ .nil
      · rename_i hc
        obtain ⟨⟨more, rest'⟩, hs, h⟩ := Option.map_eq_some_iff.mp h
        obtain ⟨rfl, rfl⟩ := Prod.mk.inj h
        split at hs
        · rename_i hopen
          subst hopen
          exact .opening (ih hs)
        · rename_i hopen
          split at hs
          · rename_i hclose
            subst hclose
            obtain ⟨n, rfl⟩ := Nat.exists_eq_succ_of_ne_zero fun h => hc ⟨rfl, h⟩
            exact .closing (ih hs)
          · rename_i hclose
            exact .plain hopen hclose (ih hs)
  · rintro ⟨h, rfl⟩
    induction h with
    | nil => simp [splitBalanced?]
    | plain hopen hclose _ ih => simp [splitBalanced?, hopen, hclose, ih]
    | opening _ ih => simp [splitBalanced?, ih]
    | closing _ ih => simp [splitBalanced?, ih]

instance (content : List Char) : Decidable (IsTagContent content) :=
  decidable_of_iff (splitTag? none (content ++ ['>']) = some (content, [])) <|
    splitTag?_eq_some_iff.trans (and_iff_left rfl)

instance (depth : Nat) (content : List Char) : Decidable (Closes depth content) :=
  decidable_of_iff (splitBalanced? depth (content ++ ['>']) = some (content, [])) <|
    splitBalanced?_eq_some_iff.trans (and_iff_left rfl)

/-! ## Items -/

/-- Is this a text? -/
def isText : Item → Bool
  | text _ _ => true
  | _ => false

/-- A tag that opens an element, or is one, does not begin like an item of another kind. -/
def StartsTag (content : List Char) : Prop := ∀ c ∈ content.head?, c ≠ '!' ∧ c ≠ '?' ∧ c ≠ '/'

/-- Does the item end only where its written form does, and not begin like another? -/
def IsLegible : Item → Prop
  | text first more => first ≠ '<' ∧ '<' ∉ more
  | comment content => ¬ ['-', '-', '>'] <:+: content
  | characters content => ¬ [']', ']', '>'] <:+: content
  | doctype keyword content =>
    isDoctypeKeyword keyword = true ∧ Closes 0 content ∧ content.all isSpace = false
  | instruction content => content.head? ≠ some '>' ∧ ¬ ['?', '>'] <:+: content
  | openTag content =>
    IsTagContent content ∧ StartsTag content ∧ content.getLast? ≠ some '/'
  | closeTag content => IsTagContent content
  | emptyTag content => IsTagContent (content ++ ['/']) ∧ StartsTag content ∧ content ≠ []

instance (content : List Char) : Decidable (StartsTag content) :=
  decidable_of_iff (content.head?.all fun c => c ≠ '!' ∧ c ≠ '?' ∧ c ≠ '/') <| by
    simp only [StartsTag, Option.all_eq_true, decide_eq_true_eq]
    rfl

instance : DecidablePred IsLegible
  | text first more => inferInstanceAs (Decidable (first ≠ '<' ∧ '<' ∉ more))
  | comment content => inferInstanceAs (Decidable ¬ ['-', '-', '>'] <:+: content)
  | characters content => inferInstanceAs (Decidable ¬ [']', ']', '>'] <:+: content)
  | doctype keyword content =>
    inferInstanceAs (Decidable (isDoctypeKeyword keyword = true ∧ Closes 0 content ∧
      content.all isSpace = false))
  | instruction content =>
    inferInstanceAs (Decidable (content.head? ≠ some '>' ∧ ¬ ['?', '>'] <:+: content))
  | openTag content =>
    inferInstanceAs (Decidable (IsTagContent content ∧ StartsTag content ∧
      content.getLast? ≠ some '/'))
  | closeTag content => inferInstanceAs (Decidable (IsTagContent content))
  | emptyTag content =>
    inferInstanceAs (Decidable (IsTagContent (content ++ ['/']) ∧ StartsTag content ∧
      content ≠ []))

theorem readTo_eq_ok_iff {init : List Char} {last : Char} (hlast : last ∉ init)
    {item : List Char → Item} {fault : Fault} {cs rest : List Char} {i : Item} :
    readTo (init ++ [last]) item fault cs = .ok (i, rest) ↔
      ∃ content, i = item content ∧ ¬ init ++ [last] <:+: content ∧
        cs = content ++ (init ++ [last] ++ rest) := by
  rw [readTo]
  constructor
  · intro h
    split at h
    · rename_i content rest' hs
      obtain ⟨rfl, rfl⟩ := Prod.mk.inj (Except.ok.inj h)
      obtain ⟨habsent, hcs⟩ := (Text.splitAtWord?_eq_some_iff hlast).mp hs
      exact ⟨content, rfl, habsent, hcs⟩
    · cases h
  · rintro ⟨content, rfl, habsent, hcs⟩
    rw [(Text.splitAtWord?_eq_some_iff hlast).mpr ⟨habsent, hcs⟩]

theorem readTag_eq_ok_iff {item : List Char → Item} {cs rest : List Char} {i : Item} :
    readTag item cs = .ok (i, rest) ↔
      ∃ content, i = item content ∧ IsTagContent content ∧ cs = content ++ '>' :: rest := by
  rw [readTag]
  constructor
  · intro h
    split at h
    · rename_i content rest' hs
      obtain ⟨rfl, rfl⟩ := Prod.mk.inj (Except.ok.inj h)
      exact ⟨content, rfl, splitTag?_eq_some_iff.mp hs⟩
    · cases h
  · rintro ⟨content, rfl, hcontent, hcs⟩
    rw [splitTag?_eq_some_iff.mpr ⟨hcontent, hcs⟩]

theorem readDoctype_eq_ok_iff {cs rest : List Char} {i : Item} :
    readDoctype cs = .ok (i, rest) ↔
      ∃ keyword content, i = doctype keyword content ∧ i.IsLegible ∧
        cs = keyword ++ (content ++ '>' :: rest) := by
  rw [readDoctype]
  constructor
  · intro h
    split at h
    · rename_i content rest' hs
      split at h
      · cases h
      · rename_i hkeyword
        split at h
        · cases h
        · rename_i hspace
          obtain ⟨rfl, rfl⟩ := Prod.mk.inj (Except.ok.inj h)
          obtain ⟨hcloses, hdrop⟩ := splitBalanced?_eq_some_iff.mp hs
          refine ⟨_, content, rfl, ⟨by simpa using hkeyword, hcloses, by simpa using hspace⟩, ?_⟩
          rw [← hdrop, List.take_append_drop]
    · cases h
  · rintro ⟨keyword, content, rfl, ⟨hkeyword, hcloses, hspace⟩, rfl⟩
    have hlength : keyword.length = 7 := by
      have := congrArg List.length (eq_of_beq hkeyword)
      simpa using this
    rw [← hlength, List.take_left, List.drop_left, splitBalanced?_eq_some_iff.mpr ⟨hcloses, rfl⟩]
    simp [hkeyword, hspace]

theorem ofTag_isLegible {content : List Char} (hcontent : IsTagContent content)
    (hstart : StartsTag content) : (ofTag content).IsLegible ∧ (ofTag content).isText = false := by
  rw [ofTag]
  split
  · rename_i hslash
    obtain ⟨init, rfl⟩ := List.getLast?_eq_some_iff.mp hslash
    rw [List.dropLast_concat]
    refine ⟨⟨hcontent, ?_, ?_⟩, rfl⟩
    · intro c hc
      cases init with
      | nil => cases hc
      | cons d init => exact hstart c hc
    · rintro rfl
      exact (hstart '/' rfl).2.2 rfl
  · rename_i hslash
    exact ⟨⟨hcontent, hstart, hslash⟩, rfl⟩

/-- What follows an exclamation mark is read as a legible item. -/
theorem isLegible_of_readDeclaration {cs rest : List Char} {i : Item}
    (h : readDeclaration cs = .ok (i, rest)) : i.IsLegible ∧ i.isText = false := by
  unfold readDeclaration at h
  split at h
  · split at h
    · obtain ⟨content, rfl, hcontent, -⟩ :=
        (readTo_eq_ok_iff (show '>' ∉ ['-', '-'] by decide)).mp h
      exact ⟨hcontent, rfl⟩
    · cases h
  · split at h
    · obtain ⟨content, rfl, hcontent, -⟩ :=
        (readTo_eq_ok_iff (show '>' ∉ [']', ']'] by decide)).mp h
      exact ⟨hcontent, rfl⟩
    · cases h
  · split at h
    · obtain ⟨keyword, content, rfl, hlegible, -⟩ := readDoctype_eq_ok_iff.mp h
      exact ⟨hlegible, rfl⟩
    · cases h
  · cases h

theorem isLegible_of_readInstruction {cs rest : List Char} {i : Item}
    (h : readInstruction cs = .ok (i, rest)) : i.IsLegible ∧ i.isText = false := by
  unfold readInstruction at h
  split at h
  · cases h
  · rename_i hhead
    obtain ⟨content, rfl, hcontent, rfl⟩ :=
      (readTo_eq_ok_iff (show '>' ∉ ['?'] by decide)).mp h
    refine ⟨⟨fun h => hhead ?_, hcontent⟩, rfl⟩
    rw [List.head?_append, h]
    rfl

/-- What is read is legible, and it is no text. -/
theorem isLegible_of_readMarkup {cs rest : List Char} {i : Item}
    (h : readMarkup cs = .ok (i, rest)) : i.IsLegible ∧ i.isText = false := by
  unfold readMarkup at h
  split at h
  case h_1 => exact isLegible_of_readDeclaration h
  case h_2 => exact isLegible_of_readInstruction h
  case h_3 =>
    obtain ⟨content, rfl, hcontent, -⟩ := readTag_eq_ok_iff.mp h
    exact ⟨hcontent, rfl⟩
  case h_4 hmark hquestion hslash =>
    obtain ⟨content, rfl, hcontent, rfl⟩ := readTag_eq_ok_iff.mp h
    refine ofTag_isLegible hcontent fun c hc => ?_
    cases content with
    | nil => cases hc
    | cons d content =>
      obtain rfl : d = c := Option.some.inj hc
      refine ⟨?_, ?_, ?_⟩
      · rintro rfl
        exact hmark _ rfl
      · rintro rfl
        exact hquestion _ rfl
      · rintro rfl
        exact hslash _ rfl

/-- What does not begin like another item is read as a tag. -/
theorem readMarkup_of_startsTag {content : List Char} (h : StartsTag content) (rest : List Char) :
    readMarkup (content ++ '>' :: rest) = readTag ofTag (content ++ '>' :: rest) := by
  cases content with
  | nil => rfl
  | cons c content =>
    obtain ⟨hmark, hquestion, hslash⟩ := h c rfl
    rw [List.cons_append]
    unfold readMarkup
    split
    · rename_i heq
      exact absurd (List.cons.inj heq).1 hmark
    · rename_i heq
      exact absurd (List.cons.inj heq).1 hquestion
    · rename_i heq
      exact absurd (List.cons.inj heq).1 hslash
    · rfl

theorem eq_of_toLower_eq_d {c : Char} (h : c.toLower = 'd') : c = 'D' ∨ c = 'd' := by
  by_cases hupper : c.val ≥ 'A'.val ∧ c.val ≤ 'Z'.val
  · have hlower : c.toLower.val = c.val + 32 := congrArg Char.val (dif_pos hupper)
    rw [h] at hlower
    refine .inl (Char.ext ?_)
    rw [← UInt32.add_sub_cancel c.val 32, ← hlower]
    rfl
  · have hlower : c.toLower = c := dif_neg hupper
    exact .inr (hlower.symm.trans h)

/-- The keyword of a document type begins with a letter of its own. -/
theorem exists_keyword_eq {keyword : List Char} (h : isDoctypeKeyword keyword = true) :
    ∃ c more, keyword = c :: more ∧ (c = 'D' ∨ c = 'd') := by
  have hkeyword : keyword.map Char.toLower = "doctype".toList := eq_of_beq h
  cases keyword with
  | nil => cases hkeyword
  | cons c more =>
    exact ⟨c, more, rfl, eq_of_toLower_eq_d (List.cons.inj hkeyword).1⟩

/-- A legible item is read from its written form. -/
theorem readMarkup_write {i : Item} (hlegible : i.IsLegible) (htext : i.isText = false)
    {cs rest : List Char} (h : '<' :: cs = i.write ++ rest) : readMarkup cs = .ok (i, rest) := by
  cases i with
  | text first more => cases htext
  | comment content =>
    obtain rfl : cs = _ := (List.cons.inj h).2
    change readTo ['-', '-', '>'] comment _ _ = _
    refine (readTo_eq_ok_iff (show '>' ∉ ['-', '-'] by decide)).mpr ⟨content, rfl, hlegible, ?_⟩
    simp
  | characters content =>
    obtain rfl : cs = _ := (List.cons.inj h).2
    change readTo [']', ']', '>'] characters _ _ = _
    refine (readTo_eq_ok_iff (show '>' ∉ [']', ']'] by decide)).mpr ⟨content, rfl, hlegible, ?_⟩
    simp
  | doctype keyword content =>
    obtain rfl : cs = '!' :: (keyword ++ (content ++ '>' :: rest)) := by simpa [write] using h
    have hread : readDoctype (keyword ++ (content ++ '>' :: rest)) = _ :=
      readDoctype_eq_ok_iff.mpr ⟨keyword, content, rfl, hlegible, rfl⟩
    obtain ⟨c, more, rfl, rfl | rfl⟩ := exists_keyword_eq hlegible.1
    · exact hread
    · exact hread
  | instruction content =>
    obtain ⟨hhead, habsent⟩ := hlegible
    obtain rfl : cs = '?' :: (content ++ (['?', '>'] ++ rest)) := by simpa [write] using h
    change readInstruction (content ++ (['?', '>'] ++ rest)) = _
    have hstart : (content ++ (['?', '>'] ++ rest)).head? ≠ some '>' := by
      cases content with
      | nil => simp
      | cons c content => exact hhead
    rw [readInstruction, if_neg hstart]
    exact (readTo_eq_ok_iff (show '>' ∉ ['?'] by decide)).mpr ⟨content, rfl, habsent, rfl⟩
  | openTag content =>
    obtain ⟨hcontent, hstart, hslash⟩ := hlegible
    obtain rfl : cs = content ++ '>' :: rest := by simpa [write] using h
    rw [readMarkup_of_startsTag hstart, readTag_eq_ok_iff]
    exact ⟨content, by rw [ofTag, if_neg hslash], hcontent, rfl⟩
  | closeTag content =>
    obtain rfl : cs = '/' :: (content ++ '>' :: rest) := by simpa [write] using h
    exact readTag_eq_ok_iff.mpr ⟨content, rfl, hlegible, rfl⟩
  | emptyTag content =>
    obtain ⟨hcontent, hstart, hne⟩ := hlegible
    obtain rfl : cs = content ++ ['/'] ++ '>' :: rest := by simpa [write] using h
    have hstart' : StartsTag (content ++ ['/']) := by
      cases content with
      | nil => exact absurd rfl hne
      | cons c content => exact hstart
    rw [readMarkup_of_startsTag hstart', readTag_eq_ok_iff]
    exact ⟨content ++ ['/'], by simp [ofTag], hcontent, rfl⟩

/-- **Exactly the legible items are read**, each from its written form. -/
theorem readMarkup_eq_ok_iff {cs rest : List Char} {i : Item} :
    readMarkup cs = .ok (i, rest) ↔
      i.IsLegible ∧ i.isText = false ∧ '<' :: cs = i.write ++ rest := by
  constructor
  · intro h
    obtain ⟨hlegible, htext⟩ := isLegible_of_readMarkup h
    have hread : Item.read '<' cs = .ok (i, rest) := (if_pos rfl).trans h
    exact ⟨hlegible, htext, eq_write_of_read hread⟩
  · rintro ⟨hlegible, htext, h⟩
    exact readMarkup_write hlegible htext h

end Item

end Markup

end PiecewiseGlyph
