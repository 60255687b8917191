import Mathlib.Tactic.IntervalCases
import PiecewiseGlyph.Markup.Reference
import PiecewiseGlyph.Result

/-!
# Spellings

A text may be written in the value of an attribute in many ways, since each of its characters may
stand for itself or be given by a reference.

* `Denotes` are the digits of a number, in either case and with zeros in front;
* `Spelling` are the ways to write a character, and `Spells` those to write a text;
* `resolve_of_spells`: whichever way is chosen, resolving the references gives the text back.
-/

namespace PiecewiseGlyph.Markup

/-! ## Numbers -/

/-- Digits and the number that they denote. A digit above nine is a letter in either case. -/
inductive Denotes (base : Nat) : List Char → Nat → Prop
  | nil : Denotes base [] 0
  | concat {cs : List Char} {n d : Nat} {c : Char} (hcs : Denotes base cs n) (hd : d < base)
    (hc : c = d.digitChar ∨ c = d.digitChar.toUpper) : Denotes base (cs ++ [c]) (n * base + d)

theorem digit?_eq_some {base d : Nat} {c : Char} (hbase : base = 10 ∨ base = 16) (hd : d < base)
    (hc : c = d.digitChar ∨ c = d.digitChar.toUpper) : digit? base c = some d := by
  rcases hbase with rfl | rfl <;> rcases hc with rfl | rfl <;> interval_cases d <;> decide

theorem readDigits_append (base value : Nat) (cs ds : List Char) :
    readDigits base value (cs ++ ds) =
      readDigits base value cs >>= fun value => readDigits base value ds := by
  induction cs generalizing value with
  | nil => rfl
  | cons c cs ih =>
    rw [List.cons_append, readDigits, readDigits]
    split
    · rfl
    · split
      · exact ih _
      · rfl

namespace Denotes

variable {base n : Nat} {cs : List Char}

/-- Every character is a digit. -/
theorem exists_digit (h : Denotes base cs n) (hbase : base = 10 ∨ base = 16) {c : Char}
    (hc : c ∈ cs) : ∃ d, digit? base c = some d := by
  induction h with
  | nil => cases hc
  | concat _ hd hdigit ih =>
    rcases List.mem_append.mp hc with hc | hc
    · exact ih hc
    · rw [List.mem_singleton.mp hc]
      exact ⟨_, digit?_eq_some hbase hd hdigit⟩

/-- No other character occurs. -/
theorem ne_of_mem (h : Denotes base cs n) (hbase : base = 10 ∨ base = 16) {c d : Char}
    (hc : c ∈ cs) (hd : digit? base d = none) : c ≠ d := by
  rintro rfl
  obtain ⟨value, hvalue⟩ := h.exists_digit hbase hc
  rw [hd] at hvalue
  cases hvalue

theorem readDigits_eq (h : Denotes base cs n) (hbase : base = 10 ∨ base = 16)
    (hn : n < Nat.pow 2 32) : readDigits base 0 cs = .ok n := by
  induction h with
  | nil => rfl
  | @concat cs n d c _ hd hc ih =>
    have hle : n ≤ n * base := Nat.le_mul_of_pos_right n (by omega)
    rw [readDigits_append, ih (by omega)]
    change readDigits base n [c] = _
    rw [readDigits, digit?_eq_some hbase hd hc]
    exact if_pos hn

/-- The digits of a number are read, if there are any. -/
theorem readNumber_eq (h : Denotes base cs n) (hbase : base = 10 ∨ base = 16) (hcs : cs ≠ [])
    (hn : n < Nat.pow 2 32) : readNumber base cs = .ok n := by
  cases cs with
  | nil => exact absurd rfl hcs
  | cons c cs =>
    have hsign : digit? base '+' = none ∧ digit? base '-' = none := by
      rcases hbase with rfl | rfl <;> decide
    have hhead : ¬ ((c :: cs).head? = some '+' ∨ (c :: cs).head? = some '-') := by
      rintro (hc | hc)
      · exact h.ne_of_mem hbase List.mem_cons_self hsign.1 (Option.some.inj hc)
      · exact h.ne_of_mem hbase List.mem_cons_self hsign.2 (Option.some.inj hc)
    rw [readNumber, if_neg (by simp), if_neg hhead, h.readDigits_eq hbase hn]

end Denotes

/-! ## Characters -/

/-- The characters that have a name. -/
inductive Named : List Char → Char → Prop
  | lt : Named "lt".toList '<'
  | gt : Named "gt".toList '>'
  | amp : Named "amp".toList '&'
  | apos : Named "apos".toList '\x27'
  | quot : Named "quot".toList '"'

/-- What may stand between ampersand and semicolon for a character: its name or its number. -/
inductive Refers : List Char → Char → Prop
  | name {name : List Char} {c : Char} (h : Named name c) : Refers name c
  | decimal {digits : List Char} {c : Char} (h : Denotes 10 digits c.toNat) (hdigits : digits ≠ [])
    (hc : c ≠ '\x00') : Refers ('#' :: digits) c
  | hexadecimal {digits : List Char} {c : Char} (h : Denotes 16 digits c.toNat)
    (hdigits : digits ≠ []) (hc : c ≠ '\x00') : Refers ('#' :: 'x' :: digits) c

/-- The ways to write a character. -/
inductive Spelling : Char → List Char → Prop
  | plain {c : Char} (hc : c ≠ '&') : Spelling c [c]
  | reference {c : Char} {name : List Char} (h : Refers name c) :
    Spelling c ('&' :: (name ++ [';']))

/-- The ways to write a text, each of its characters in a way of its own. -/
inductive Spells : List Char → List Char → Prop
  | nil : Spells [] []
  | cons {c : Char} {text part value : List Char} (hc : Spelling c part)
    (htext : Spells text value) : Spells (c :: text) (part ++ value)

/-- A decimal number does not begin with an `x`, so that only the hexadecimal ones do. -/
theorem readCode_eq {base : Nat} {digits cs : List Char} {c : Char}
    (h : Denotes base digits c.toNat)
    (hcs : base = 10 ∧ cs = digits ∨ base = 16 ∧ cs = 'x' :: digits) (hdigits : digits ≠ [])
    (hc : c ≠ '\x00') : readCode cs = .ok c := by
  have hbase : base = 10 ∨ base = 16 := hcs.imp And.left And.left
  have hread := h.readNumber_eq hbase hdigits c.val.toNat_lt
  have hzero : c.toNat ≠ 0 := fun h => hc (Char.toNat_inj.mp h)
  have hchar : (if c.toNat = 0 then throw .zero
      else if Nat.isValidChar c.toNat then return Char.ofNat c.toNat
      else throw (.noCharacter c.toNat) : Except CodeFault Char) = .ok c := by
    have hvalid : c.toNat.isValidChar := c.valid
    rw [if_neg hzero, if_pos hvalid, Char.ofNat_toNat]
    rfl
  unfold readCode
  split
  · rename_i digits'
    obtain ⟨rfl, rfl⟩ | ⟨rfl, heq⟩ := hcs
    · exact absurd rfl (h.ne_of_mem (.inl rfl) List.mem_cons_self (by decide))
    · obtain ⟨-, rfl⟩ := List.cons.inj heq
      exact bind_eq_ok.mpr ⟨c.toNat, hread, hchar⟩
  · rename_i hx
    obtain ⟨rfl, rfl⟩ | ⟨rfl, rfl⟩ := hcs
    · exact bind_eq_ok.mpr ⟨c.toNat, hread, hchar⟩
    · exact absurd rfl (hx digits)

theorem Refers.readReference_eq {name : List Char} {c : Char} (h : Refers name c) (start : Nat) :
    readReference start name = .ok c := by
  cases h with
  | name h => cases h <;> rfl
  | decimal h hdigits hc =>
    rw [readReference, readCode_eq h (.inl ⟨rfl, rfl⟩) hdigits hc]
    rfl
  | hexadecimal h hdigits hc =>
    rw [readReference, readCode_eq h (.inr ⟨rfl, rfl⟩) hdigits hc]
    rfl

/-- What stands for a character does not end the reference. -/
theorem Refers.endsReference_eq {name : List Char} {c d : Char} (h : Refers name c)
    (hd : d ∈ name) : endsReference d = false := by
  have hdigits {base n : Nat} {cs : List Char} (h : Denotes base cs n)
      (hbase : base = 10 ∨ base = 16)
      (hd : d ∈ cs) : endsReference d = false := by
    have hend : digit? base ';' = none ∧ digit? base '&' = none := by
      rcases hbase with rfl | rfl <;> decide
    have hne := And.intro (h.ne_of_mem hbase hd hend.1) (h.ne_of_mem hbase hd hend.2)
    simpa [endsReference] using hne
  cases h with
  | name h =>
    have hall : name.all (!endsReference ·) = true := by cases h <;> decide
    simpa using List.all_eq_true.mp hall d hd
  | decimal h =>
    rcases List.mem_cons.mp hd with rfl | hd
    · rfl
    · exact hdigits h (.inl rfl) hd
  | hexadecimal h =>
    rcases List.mem_cons.mp hd with rfl | hd
    · rfl
    rcases List.mem_cons.mp hd with rfl | hd
    · rfl
    · exact hdigits h (.inr rfl) hd

/-! ## Texts -/

theorem resolveFrom_eq_self {cs : List Char} (h : ∀ c ∈ cs, (c == '&') = false) (size : Nat) :
    resolveFrom size cs = .ok cs := by
  unfold resolveFrom
  split
  · rename_i heq
    cases (Text.upTo_eq_self h).symm.trans heq
    rfl
  · rename_i heq
    cases (Text.upTo_eq_self h).symm.trans heq

/-- A reference is replaced, and what stands before it is left as it is. -/
theorem resolveFrom_append_reference {size : Nat} {c : Char} {cs name value text : List Char}
    (hcs : ∀ c ∈ cs, (c == '&') = false) (hname : Refers name c)
    (h : resolveFrom size value = .ok text) :
    resolveFrom size (cs ++ '&' :: (name ++ ';' :: value)) = .ok (cs ++ c :: text) := by
  have hstart := Text.upTo_append_cons hcs (beq_self_eq_true '&') (name ++ ';' :: value)
  have hend : Text.upTo endsReference (name ++ ';' :: value) = (name, ';' :: value) :=
    Text.upTo_append_cons (fun d hd => hname.endsReference_eq hd) rfl value
  unfold resolveFrom
  split
  · rename_i heq
    cases hstart.symm.trans heq
  · rename_i heq
    cases hstart.symm.trans heq
    split
    · rename_i heq
      cases hend.symm.trans heq
      rw [hname.readReference_eq, h]
      rfl
    · rename_i hne
      exact absurd hend (hne name value)

/-- The characters before a spelled text are those that are read before the next reference. -/
theorem resolveFrom_of_spells {text value : List Char} (h : Spells text value) (size : Nat)
    {cs : List Char} (hcs : ∀ c ∈ cs, (c == '&') = false) :
    resolveFrom size (cs ++ value) = .ok (cs ++ text) := by
  induction h generalizing cs with
  | nil => rw [List.append_nil, resolveFrom_eq_self hcs]
  | @cons c text part value hc _ ih =>
    cases hc with
    | plain hc =>
      have hcs' : ∀ d ∈ cs ++ [c], (d == '&') = false :=
        List.forall_mem_append.mpr ⟨hcs, by simpa using hc⟩
      have ih := ih hcs'
      rwa [List.append_assoc, List.append_assoc] at ih
    | reference hname =>
      have ih : resolveFrom size ([] ++ value) = .ok ([] ++ text) := ih nofun
      rw [List.cons_append, List.append_assoc]
      exact resolveFrom_append_reference hcs hname ih

/-- **Whichever way a text is written, it is read back.** -/
theorem resolve_of_spells {text value : List Char} (h : Spells text value) :
    resolve value = .ok text := by
  have hnone : ∀ c ∈ ([] : List Char), (c == '&') = false := nofun
  exact resolveFrom_of_spells h (Text.byteLength value) hnone

/-- Text without ampersands spells itself. -/
theorem spells_self {cs : List Char} (h : '&' ∉ cs) : Spells cs cs := by
  induction cs with
  | nil => exact .nil
  | cons c cs ih =>
    have hc : c ≠ '&' := fun hc => h (hc ▸ List.mem_cons_self)
    exact .cons (.plain hc) (ih fun hcs => h (List.mem_cons_of_mem c hcs))

end PiecewiseGlyph.Markup
