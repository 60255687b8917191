import Mathlib.Data.List.DropRight
import Mathlib.Data.List.Forall2
import Mathlib.Data.List.TakeWhile
import PiecewiseGlyph.Json.Document

/-!
# Reading what was written

A value ends where a blank, a comma or a closing bracket follows. Readers stop there, whatever comes
after it.

* `EndsValue` says that a text can follow a value, and `Reader.IsLocal` that a reader does not look
  at such a text: numbers are read so (`readNumber_isLocal`, `readNumberValue_isLocal`);
* `Reader.Reads` says that a value is read from a text, whatever blanks come before it and whatever
  follows it;
* `scanNumber_repr` reads natural numbers, and `readItems_moreItems` reads lists between brackets.
-/

namespace PiecewiseGlyph.Json

variable {α : Type}

/-! ## What stands around a value -/

/-- Can this character stand next to a value? -/
def isOuter (c : Char) : Bool := isBlank c || c == ',' || c == ']' || c == '\x7d'

/-- What can follow a value: nothing, or a text that begins with a blank, a comma or a closing
bracket. -/
def EndsValue (rest : List Char) : Prop := ∀ c ∈ rest.head?, isOuter c = true

theorem endsValue_nil : EndsValue [] := nofun

theorem endsValue_cons {c : Char} {rest : List Char} :
    EndsValue (c :: rest) ↔ isOuter c = true := by
  simp [EndsValue]

theorem isOuter_of_isBlank {c : Char} (h : isBlank c = true) : isOuter c = true := by
  simp [isOuter, h]

theorem isBlank_of_isOuter {c : Char} (h : isOuter c = false) : isBlank c = false := by
  simp only [isOuter, Bool.or_eq_false_iff] at h
  exact h.1.1.1

/-- No number goes on with a character that can stand next to a value. -/
theorem isOuter_of_isDigit {c : Char} (h : c.isDigit = true) : isOuter c = false := by
  cases houter : isOuter c with
  | false => rfl
  | true =>
    simp only [isOuter, isBlank, Bool.or_eq_true, beq_iff_eq] at houter
    rcases houter with (((((rfl | rfl) | rfl) | rfl) | rfl) | rfl) | rfl
    all_goals cases h

/-- Blanks and then a text that can follow a value can follow a value. -/
theorem EndsValue.append {blanks rest : List Char} (hblanks : ∀ c ∈ blanks, isBlank c = true)
    (hrest : EndsValue rest) : EndsValue (blanks ++ rest) := by
  cases blanks with
  | nil => exact hrest
  | cons c blanks => exact endsValue_cons.mpr (isOuter_of_isBlank (hblanks c List.mem_cons_self))

@[simp] theorem skipBlanks_skipBlanks (cs : List Char) :
    skipBlanks (skipBlanks cs) = skipBlanks cs :=
  List.dropWhile_idempotent _ cs

theorem skipBlanks_append {blanks : List Char} (h : ∀ c ∈ blanks, isBlank c = true)
    (cs : List Char) : skipBlanks (blanks ++ cs) = skipBlanks cs :=
  List.dropWhile_append_of_pos h

theorem skipBlanks_append_cons {blanks : List Char} (h : ∀ c ∈ blanks, isBlank c = true) {c : Char}
    (hc : isBlank c = false) (cs : List Char) : skipBlanks (blanks ++ c :: cs) = c :: cs := by
  rw [skipBlanks_append h, skipBlanks_cons cs hc]

/-! ## Numbers -/

/-- What a reader makes of a text does not change with what follows the text, if that can follow a
value. -/
def Reader.IsLocal (r : Reader α) : Prop :=
  ∀ cs a left rest, r cs = .ok (a, left) → EndsValue rest → r (cs ++ rest) = .ok (a, left ++ rest)

theorem takeWhile_isDigit_append (cs : List Char) {rest : List Char} (hrest : EndsValue rest) :
    (cs ++ rest).takeWhile Char.isDigit = cs.takeWhile Char.isDigit := by
  induction cs with
  | nil =>
    cases rest with
    | nil => rfl
    | cons c rest =>
      exact List.takeWhile_cons_of_neg fun hc =>
        absurd (hrest c rfl) (by rw [isOuter_of_isDigit hc]; nofun)
  | cons c cs ih => rw [List.cons_append, List.takeWhile_cons, List.takeWhile_cons, ih]

theorem dropWhile_isDigit_append (cs : List Char) {rest : List Char} (hrest : EndsValue rest) :
    (cs ++ rest).dropWhile Char.isDigit = cs.dropWhile Char.isDigit ++ rest := by
  induction cs with
  | nil =>
    cases rest with
    | nil => rfl
    | cons c rest =>
      exact List.dropWhile_cons_of_neg fun hc =>
        absurd (hrest c rfl) (by rw [isOuter_of_isDigit hc]; nofun)
  | cons c cs ih =>
    rw [List.cons_append, List.dropWhile_cons, List.dropWhile_cons]
    split
    · exact ih
    · rfl

theorem scanDigits_isLocal (atEnd : Fault) : Reader.IsLocal (scanDigits atEnd) := by
  intro cs digits left rest h hrest
  cases cs with
  | nil => cases h
  | cons c cs =>
    simp only [scanDigits, List.cons_append] at h ⊢
    split at h
    · rename_i hc
      obtain ⟨rfl, rfl⟩ := Prod.mk.inj (Except.ok.inj h)
      rw [if_pos hc, ← List.cons_append, takeWhile_isDigit_append _ hrest,
        dropWhile_isDigit_append _ hrest]
    · cases h

theorem scanWhole_isLocal (atEnd : Fault) : Reader.IsLocal (scanWhole atEnd) := by
  intro cs whole left rest h hrest
  obtain ⟨⟨digits, left⟩, hdigits, h⟩ := bind_eq_ok.mp h
  refine bind_eq_ok.mpr ⟨_, scanDigits_isLocal atEnd _ _ _ _ hdigits hrest, ?_⟩
  dsimp only at h ⊢
  split at h
  · cases h
  · rename_i hzero
    obtain ⟨rfl, rfl⟩ := Prod.mk.inj (Except.ok.inj h)
    rw [if_neg hzero]
    rfl

theorem scanFraction_of_head? {atEnd : Fault} {cs : List Char} (h : cs.head? ≠ some '.') :
    scanFraction atEnd cs = .ok (none, cs) := by
  unfold scanFraction
  split
  · exact absurd rfl h
  · rfl

theorem scanFraction_isLocal (atEnd : Fault) : Reader.IsLocal (scanFraction atEnd) := by
  intro cs fraction left rest h hrest
  cases cs with
  | nil =>
    obtain ⟨rfl, rfl⟩ := Prod.mk.inj (Except.ok.inj h)
    exact scanFraction_of_head? fun hpoint => by cases hrest '.' hpoint
  | cons c cs =>
    by_cases hc : c = '.'
    · subst hc
      obtain ⟨⟨digits, left⟩, hdigits, h⟩ := map_eq_ok.mp h
      obtain ⟨rfl, rfl⟩ := Prod.mk.inj h
      exact map_eq_ok.mpr ⟨_, scanDigits_isLocal atEnd _ _ _ _ hdigits hrest, rfl⟩
    · have hne : (c :: cs).head? ≠ some '.' := fun hpoint => hc (Option.some.inj hpoint)
      rw [scanFraction_of_head? hne] at h
      obtain ⟨rfl, rfl⟩ := Prod.mk.inj (Except.ok.inj h)
      exact scanFraction_of_head? hne

theorem scanPower_of_endsValue (atEnd : Fault) {rest : List Char} (hrest : EndsValue rest) :
    scanPower atEnd rest = .ok (none, rest) := by
  cases rest with
  | nil => rfl
  | cons c rest =>
    refine if_neg ?_
    rintro (rfl | rfl)
    all_goals cases hrest _ rfl

/-- A sign is taken off before anything that follows is looked at. -/
theorem splitSign_append {cs : List Char} (h : cs ≠ []) (rest : List Char) :
    Numeral.splitSign (cs ++ rest) =
      ((Numeral.splitSign cs).1, (Numeral.splitSign cs).2 ++ rest) := by
  obtain ⟨c, cs, rfl⟩ := List.exists_cons_of_ne_nil h
  by_cases hminus : c = '-'
  · subst hminus; rfl
  by_cases hplus : c = '+'
  · subst hplus; rfl
  simp [Numeral.splitSign, hminus, hplus]

/-- There is something before the digits that are read. -/
theorem ne_nil_of_scanDigits {atEnd : Fault} {cs digits left : List Char}
    (h : scanDigits atEnd cs = .ok (digits, left)) : cs ≠ [] := by
  rintro rfl
  cases h

theorem scanPower_isLocal (atEnd : Fault) : Reader.IsLocal (scanPower atEnd) := by
  intro cs power left rest h hrest
  cases cs with
  | nil =>
    obtain ⟨rfl, rfl⟩ := Prod.mk.inj (Except.ok.inj h)
    exact scanPower_of_endsValue atEnd hrest
  | cons c cs =>
    simp only [scanPower, List.cons_append] at h ⊢
    split at h
    · rename_i he
      obtain ⟨⟨digits, left⟩, hdigits, h⟩ := map_eq_ok.mp h
      obtain ⟨rfl, rfl⟩ := Prod.mk.inj h
      have hne : cs ≠ [] := by
        rintro rfl
        exact ne_nil_of_scanDigits hdigits rfl
      rw [if_pos he, splitSign_append hne]
      exact map_eq_ok.mpr ⟨_, scanDigits_isLocal atEnd _ _ _ _ hdigits hrest, rfl⟩
    · rename_i he
      obtain ⟨rfl, rfl⟩ := Prod.mk.inj (Except.ok.inj h)
      rw [if_neg he]
      rfl

theorem scanMinus_append {cs : List Char} (h : cs ≠ []) (rest : List Char) :
    scanMinus (cs ++ rest) = ((scanMinus cs).1, (scanMinus cs).2 ++ rest) := by
  obtain ⟨c, cs, rfl⟩ := List.exists_cons_of_ne_nil h
  by_cases hminus : c = '-'
  · subst hminus; rfl
  simp [scanMinus, hminus]

/-- A number is read up to where a value can end. -/
theorem scanNumber_isLocal (atEnd : Fault) : Reader.IsLocal (scanNumber atEnd) := by
  intro cs parts left rest h hrest
  obtain ⟨⟨whole, left₁⟩, hwhole, h⟩ := bind_eq_ok.mp h
  obtain ⟨⟨fraction, left₂⟩, hfraction, h⟩ := bind_eq_ok.mp h
  obtain ⟨⟨power, left₃⟩, hpower, h⟩ := bind_eq_ok.mp h
  obtain ⟨rfl, rfl⟩ := Prod.mk.inj (Except.ok.inj h)
  have hne : cs ≠ [] := by
    rintro rfl
    cases hwhole
  simp only [scanNumber, scanMinus_append hne]
  exact bind_eq_ok.mpr ⟨_, scanWhole_isLocal atEnd _ _ _ _ hwhole hrest,
    bind_eq_ok.mpr ⟨_, scanFraction_isLocal atEnd _ _ _ _ hfraction hrest,
      bind_eq_ok.mpr ⟨_, scanPower_isLocal atEnd _ _ _ _ hpower hrest, rfl⟩⟩⟩

theorem readNumber_isLocal : readNumber.IsLocal := by
  intro cs x left rest h hrest
  obtain ⟨⟨parts, left⟩, hparts, h⟩ := bind_eq_ok.mp h
  refine bind_eq_ok.mpr ⟨_, scanNumber_isLocal _ _ _ _ _ hparts hrest, ?_⟩
  dsimp only at h ⊢
  split at h
  · obtain ⟨rfl, rfl⟩ := Prod.mk.inj (Except.ok.inj h)
    rfl
  · cases h

theorem readNumberValue_isLocal : readNumberValue.IsLocal := by
  intro cs v left rest h hrest
  obtain ⟨⟨parts, left⟩, hparts, h⟩ := bind_eq_ok.mp h
  refine bind_eq_ok.mpr ⟨_, scanNumber_isLocal _ _ _ _ _ hparts hrest, ?_⟩
  dsimp only at h ⊢
  split at h
  · obtain ⟨rfl, rfl⟩ := Prod.mk.inj (Except.ok.inj h)
    rfl
  · obtain ⟨rfl, rfl⟩ := Prod.mk.inj (Except.ok.inj h)
    rfl
  · cases h

/-- A number begins with a minus or a digit. -/
theorem exists_startsNumber {atEnd : Fault} {cs left : List Char} {parts : NumberParts}
    (h : scanNumber atEnd cs = .ok (parts, left)) :
    ∃ c tail, cs = c :: tail ∧ startsNumber c = true := by
  obtain ⟨⟨whole, left₁⟩, hwhole, -⟩ := bind_eq_ok.mp h
  obtain ⟨⟨digits, left₂⟩, hdigits, -⟩ := bind_eq_ok.mp hwhole
  cases cs with
  | nil => cases hdigits
  | cons c cs =>
    refine ⟨c, cs, rfl, ?_⟩
    by_cases hminus : c = '-'
    · subst hminus; rfl
    have hsigned : (scanMinus (c :: cs)).2 = c :: cs := by simp [scanMinus, hminus]
    simp only [hsigned, scanDigits] at hdigits
    split at hdigits
    · rename_i hc
      rw [startsNumber, hc, Bool.or_true]
    · cases hdigits

/-! ## Natural numbers -/

/-- Only zero is written with a leading zero. -/
theorem head?_toDigits_ne {n : Nat} (h : n ≠ 0) : (Nat.toDigits 10 n).head? ≠ some '0' := by
  induction n using Nat.strongRecOn with
  | ind n ih =>
    by_cases hn : n < 10
    · rw [Nat.toDigits_of_lt_base hn]
      have hdigits : ∀ k : Fin 10, k.val ≠ 0 → [k.val.digitChar].head? ≠ some '0' := by decide
      exact hdigits ⟨n, hn⟩ h
    · have hleading := ih (n / 10) (by omega) (by omega)
      rw [Nat.toDigits_of_base_le (by omega) (by omega)]
      obtain ⟨d, ds, hd⟩ := List.exists_cons_of_ne_nil (Nat.toDigits_ne_nil (n := n / 10) (b := 10))
      rwa [hd] at hleading ⊢

/-- A natural number is a number without sign, fraction and power. -/
theorem scanNumber_repr (atEnd : Fault) (n : Nat) :
    scanNumber atEnd n.repr.toList = .ok (⟨false, n.repr.toList, none, none⟩, []) := by
  obtain ⟨c, cs, hcs⟩ := List.exists_cons_of_ne_nil (Numeral.repr_ne_nil n)
  have hdigits : ∀ d ∈ c :: cs, d.isDigit = true := fun d hd =>
    Numeral.isDigit_of_mem_repr (hcs ▸ hd)
  have hc : c.isDigit = true := hdigits c List.mem_cons_self
  have hminus : scanMinus (c :: cs) = (false, c :: cs) := by
    have hne : c ≠ '-' := by
      rintro rfl
      cases hc
    simp [scanMinus, hne]
  have hscan : scanDigits atEnd (c :: cs) = .ok (c :: cs, []) := by
    rw [scanDigits, if_pos hc, List.takeWhile_eq_self_iff.mpr hdigits,
      List.dropWhile_eq_nil_iff.mpr hdigits]
  have hzero : ¬((c :: cs).head? = some '0' ∧ (c :: cs).length ≠ 1) := by
    rintro ⟨hhead, hlength⟩
    rw [← hcs, Nat.toList_repr] at hhead hlength
    by_cases hn : n = 0
    · subst hn
      exact hlength rfl
    · exact head?_toDigits_ne hn hhead
  have hwhole : scanWhole atEnd (c :: cs) = .ok (c :: cs, []) :=
    bind_eq_ok.mpr ⟨_, hscan, if_neg hzero⟩
  rw [hcs]
  simp only [scanNumber, hminus]
  exact bind_eq_ok.mpr ⟨_, hwhole, rfl⟩

theorem readNumberValue_repr (n : Nat) :
    readNumberValue n.repr.toList = .ok (.natural n, []) := by
  have hnatural : NumberParts.natural? ⟨false, n.repr.toList, none, none⟩ = some n := by
    simp only [NumberParts.natural?, Numeral.natOfDigits_repr]
    rfl
  refine bind_eq_ok.mpr ⟨_, scanNumber_repr _ n, ?_⟩
  simp only [hnatural]
  rfl

/-! ## Values between brackets -/

/-- A value is read from a text, whatever blanks come before it and whatever follows it. -/
structure Reader.Reads (r : Reader α) (text : List Char) (a : α) : Prop where
  /-- The text begins with something of the value. -/
  begins : ∃ c tail, text = c :: tail ∧ isOuter c = false
  reads : ∀ blanks rest : List Char, (∀ c ∈ blanks, isBlank c = true) → EndsValue rest →
    r (blanks ++ (text ++ rest)) = .ok (a, rest)

/-- A reader passes over blanks before the value. -/
def Reader.SkipsBlanks (r : Reader α) : Prop := ∀ cs, r (skipBlanks cs) = r cs

theorem Reader.SkipsBlanks.reads {r : Reader α} (hr : r.SkipsBlanks) {text tail : List Char} {a : α}
    {c : Char} (htext : text = c :: tail) (hc : isOuter c = false)
    (h : ∀ rest, EndsValue rest → r (c :: (tail ++ rest)) = .ok (a, rest)) : r.Reads text a := by
  subst htext
  refine ⟨⟨c, tail, rfl, hc⟩, fun blanks rest hblanks hrest => ?_⟩
  rw [← hr, List.cons_append, skipBlanks_append_cons hblanks (isBlank_of_isOuter hc)]
  exact h rest hrest

/-- Items after the first, each after a comma and what starts its line. -/
def moreItems (line : List Char) (texts : List (List Char)) : List Char :=
  texts.flatMap fun text => ',' :: (line ++ text)

@[simp] theorem moreItems_nil (line : List Char) : moreItems line [] = [] := rfl

@[simp] theorem moreItems_cons (line text : List Char) (texts : List (List Char)) :
    moreItems line (text :: texts) = ',' :: (line ++ (text ++ moreItems line texts)) := by
  simp [moreItems]

theorem intercalate_comma (line text : List Char) (texts : List (List Char)) :
    (',' :: line).intercalate (text :: texts) = text ++ moreItems line texts := by
  induction texts generalizing text with
  | nil => simp
  | cons next texts ih => simp [List.intercalate_cons_cons, ih]

theorem endsValue_moreItems (line : List Char) (texts : List (List Char)) {rest : List Char}
    (hrest : EndsValue rest) : EndsValue (moreItems line texts ++ rest) := by
  cases texts with
  | nil => exact hrest
  | cons text texts =>
    rw [moreItems_cons]
    exact endsValue_cons.mpr rfl

/-- The closing brackets. -/
def IsClosing (close : Char) : Prop := close = ']' ∨ close = '\x7d'

theorem IsClosing.isOuter {close : Char} (h : IsClosing close) : isOuter close = true := by
  rcases h with rfl | rfl <;> rfl

theorem IsClosing.isBlank {close : Char} (h : IsClosing close) : isBlank close = false := by
  rcases h with rfl | rfl <;> rfl

theorem IsClosing.ne_comma {close : Char} (h : IsClosing close) : ',' ≠ close := by
  rcases h with rfl | rfl <;> decide

section Items

variable {r : Reader α} {hr : r.NeverGrows} {close : Char} {line last : List Char}
  {texts : List (List Char)} {as : List α}

theorem readMoreItems_of_close {cs rest : List Char} (h : skipBlanks cs = close :: rest) :
    readMoreItems r hr close cs = .ok ([], rest) := by
  rw [readMoreItems]
  split
  · rename_i hs
    cases hs.symm.trans h
  · rename_i c rest' hs
    obtain ⟨rfl, rfl⟩ := List.cons.inj (hs.symm.trans h)
    exact if_pos rfl

theorem readMoreItems_of_comma {cs left : List Char} {a : α} (hclose : ',' ≠ close)
    (h : r cs = .ok (a, left)) :
    readMoreItems r hr close (',' :: cs) =
      (readMoreItems r hr close left).map fun (as, rest) => (a :: as, rest) := by
  rw [readMoreItems]
  split
  · rename_i hs
    rw [skipBlanks_cons _ rfl] at hs
    cases hs
  · rename_i c rest' hs
    rw [skipBlanks_cons _ rfl] at hs
    obtain ⟨rfl, rfl⟩ := List.cons.inj hs
    rw [if_neg hclose, if_pos rfl]
    split
    · rename_i e he
      cases he.symm.trans h
    · rename_i a' rest' ha
      cases ha.symm.trans h
      rfl

/-- Items after the first are read up to the closing bracket. -/
theorem readMoreItems_moreItems (hclose : IsClosing close)
    (hline : ∀ c ∈ line, isBlank c = true) (hlast : ∀ c ∈ last, isBlank c = true)
    (h : List.Forall₂ r.Reads texts as) (rest : List Char) :
    readMoreItems r hr close (moreItems line texts ++ (last ++ close :: rest)) =
      .ok (as, rest) := by
  have hend : EndsValue (last ++ close :: rest) :=
    EndsValue.append hlast (endsValue_cons.mpr hclose.isOuter)
  induction h with
  | nil =>
    rw [moreItems_nil, List.nil_append]
    exact readMoreItems_of_close (skipBlanks_append_cons hlast hclose.isBlank rest)
  | @cons text a texts as htext _ ih =>
    rw [moreItems_cons, List.cons_append, List.append_assoc, List.append_assoc,
      readMoreItems_of_comma hclose.ne_comma
        (htext.reads _ _ hline (endsValue_moreItems line texts hend)), ih]
    rfl

/-- Items are read from after the opening bracket. -/
theorem readItems_moreItems (hclose : IsClosing close)
    (hline : ∀ c ∈ line, isBlank c = true) (hlast : ∀ c ∈ last, isBlank c = true)
    {text : List Char} {a : α} (htext : r.Reads text a) (h : List.Forall₂ r.Reads texts as)
    (rest : List Char) :
    readItems r hr close (line ++ (text ++ (moreItems line texts ++ (last ++ close :: rest)))) =
      .ok (a :: as, rest) := by
  have hend : EndsValue (last ++ close :: rest) :=
    EndsValue.append hlast (endsValue_cons.mpr hclose.isOuter)
  obtain ⟨c, tail, rfl, hc⟩ := htext.begins
  have hne : c ≠ close := by
    rintro rfl
    exact absurd hclose.isOuter (by rw [hc]; nofun)
  have hfirst := htext.reads [] _ nofun (endsValue_moreItems line texts hend)
  rw [List.nil_append, List.cons_append] at hfirst
  rw [readItems, List.cons_append, skipBlanks_append_cons hline (isBlank_of_isOuter hc)]
  simp only [if_neg hne]
  refine bind_eq_ok.mpr ⟨_, hfirst, ?_⟩
  exact bind_eq_ok.mpr ⟨_, readMoreItems_moreItems hclose hline hlast h rest, rfl⟩

end Items

end PiecewiseGlyph.Json
