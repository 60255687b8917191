import PiecewiseGlyph.Text.Utf8

/-!
# Bytes and characters

Positions count bytes, and a text is cut only where a character begins or the text ends.

* `Text.byteAt?` is the byte at a position. A byte below 128 is a character of its own, and no part
  of another one (`byteAt?_eq_some_iff`);
* `Text.isValid_iff`: the positions between characters are the lengths of the leading parts;
* `Text.slice?` cuts a part out of a text, or refuses positions that are out of order, past the end
  or inside a character (`slice?_eq_some_iff`).
-/

namespace PiecewiseGlyph.Text

/-! ## Bytes -/

/-- The byte at a position of the UTF-8 form. -/
def byteAt? (data : String) (n : Nat) : Option UInt8 := data.toUTF8.data[n]?

/-- The UTF-8 form is that of each character, one after the other. -/
theorem toList_toUTF8 (data : String) :
    data.toUTF8.data.toList = data.toList.flatMap String.utf8EncodeChar := by
  have hform : data.toUTF8 = data.toList.utf8Encode := by
    rw [← String.toByteArray_ofList, String.ofList_toList]
    rfl
  rw [hform]
  exact congrArg Array.toList List.data_toByteArray

/-- Only ASCII characters have bytes below 128. -/
theorem le_of_mem_utf8EncodeChar {b : UInt8} {c : Char} (hc : 128 ≤ c.toNat)
    (hb : b ∈ String.utf8EncodeChar c) : 128 ≤ b.toNat := by
  unfold String.utf8EncodeChar at hb
  rw [Char.toNat_val, if_neg (by omega)] at hb
  split at hb
  · simp only [List.mem_cons, List.not_mem_nil, or_false] at hb
    rcases hb with rfl | rfl <;> rw [UInt8.toNat_ofNat'] <;> omega
  · split at hb
    · simp only [List.mem_cons, List.not_mem_nil, or_false] at hb
      rcases hb with rfl | rfl | rfl <;> rw [UInt8.toNat_ofNat'] <;> omega
    · simp only [List.mem_cons, List.not_mem_nil, or_false] at hb
      rcases hb with rfl | rfl | rfl | rfl <;> rw [UInt8.toNat_ofNat'] <;> omega

theorem toNat_ofUInt8 (b : UInt8) : (Char.ofUInt8 b).toNat = b.toNat := UInt8.toNat_toUInt32 b

theorem ofUInt8_ofNat {c : Char} (hc : c.toNat < 128) :
    Char.ofUInt8 (UInt8.ofNat c.toNat) = c := by
  apply Char.ext
  apply UInt32.toNat_inj.mp
  change (Char.ofUInt8 (UInt8.ofNat c.toNat)).toNat = c.toNat
  rw [toNat_ofUInt8, UInt8.toNat_ofNat', Nat.mod_eq_of_lt (by omega)]

theorem utf8EncodeChar_of_lt {c : Char} (hc : c.toNat < 128) :
    String.utf8EncodeChar c = [UInt8.ofNat c.toNat] := by
  unfold String.utf8EncodeChar
  rw [Char.toNat_val, if_pos (by omega)]

theorem utf8Size_of_lt {c : Char} (hc : c.toNat < 128) : c.utf8Size = 1 := by
  rw [← String.length_utf8EncodeChar, utf8EncodeChar_of_lt hc]
  rfl

theorem utf8EncodeChar_ofUInt8 {b : UInt8} (hb : b.toNat < 128) :
    String.utf8EncodeChar (Char.ofUInt8 b) = [b] := by
  rw [utf8EncodeChar_of_lt (by rwa [toNat_ofUInt8]), toNat_ofUInt8, UInt8.ofNat_toNat]

/-- A byte below 128 belongs to one character, which has no other bytes. -/
theorem mem_utf8EncodeChar_iff {b : UInt8} {c : Char} (hb : b.toNat < 128) :
    b ∈ String.utf8EncodeChar c ↔ c = Char.ofUInt8 b := by
  constructor
  · intro hmem
    have hc : c.toNat < 128 := by
      rcases Nat.lt_or_ge c.toNat 128 with hc | hc
      · exact hc
      · have := le_of_mem_utf8EncodeChar hc hmem
        omega
    rw [utf8EncodeChar_of_lt hc, List.mem_singleton] at hmem
    rw [hmem, ofUInt8_ofNat hc]
  · rintro rfl
    rw [utf8EncodeChar_ofUInt8 hb]
    exact List.mem_singleton_self b

/-- A character of a text is the first one, or it is further on than the first one reaches. -/
theorem exists_cons_eq_append_iff {c d : Char} {cs : List Char} {n : Nat} :
    (∃ lead rest, c :: cs = lead ++ d :: rest ∧ byteLength lead = n) ↔
      c = d ∧ n = 0 ∨
        c.utf8Size ≤ n ∧ ∃ lead rest, cs = lead ++ d :: rest ∧
          byteLength lead = n - c.utf8Size := by
  constructor
  · rintro ⟨lead, rest, h, rfl⟩
    cases lead with
    | nil =>
      obtain ⟨rfl, -⟩ := List.cons.inj h
      exact .inl ⟨rfl, rfl⟩
    | cons e lead =>
      obtain ⟨rfl, rfl⟩ := List.cons.inj h
      rw [byteLength_cons]
      exact .inr ⟨by omega, lead, rest, rfl, by omega⟩
  · rintro (⟨rfl, rfl⟩ | ⟨hle, lead, rest, rfl, hlead⟩)
    · exact ⟨[], cs, rfl, rfl⟩
    · refine ⟨c :: lead, rest, rfl, ?_⟩
      rw [byteLength_cons]
      omega

theorem getElem?_flatMap_utf8EncodeChar {cs : List Char} {n : Nat} {b : UInt8}
    (hb : b.toNat < 128) :
    (cs.flatMap String.utf8EncodeChar)[n]? = some b ↔
      ∃ lead rest, cs = lead ++ Char.ofUInt8 b :: rest ∧ byteLength lead = n := by
  induction cs generalizing n with
  | nil => simp
  | cons c cs ih =>
    have hsize := c.utf8Size_pos
    rw [List.flatMap_cons, List.getElem?_append, String.length_utf8EncodeChar,
      exists_cons_eq_append_iff]
    split
    · rename_i hn
      rw [or_iff_left fun h => absurd hn (Nat.not_lt.mpr h.1)]
      constructor
      · intro h
        obtain rfl := (mem_utf8EncodeChar_iff hb).mp (List.mem_of_getElem? h)
        rw [utf8Size_of_lt (by rwa [toNat_ofUInt8])] at hn
        exact ⟨rfl, Nat.lt_one_iff.mp hn⟩
      · rintro ⟨rfl, rfl⟩
        rw [utf8EncodeChar_ofUInt8 hb]
        rfl
    · rename_i hn
      rw [ih, or_iff_right (by omega), and_iff_right (Nat.not_lt.mp hn)]

/-- A byte below 128 is at a position exactly if its character begins there. -/
theorem byteAt?_eq_some_iff {data : String} {n : Nat} {b : UInt8} (hb : b.toNat < 128) :
    byteAt? data n = some b ↔
      ∃ lead rest, data.toList = lead ++ Char.ofUInt8 b :: rest ∧ byteLength lead = n := by
  rw [← getElem?_flatMap_utf8EncodeChar hb, ← toList_toUTF8, Array.getElem?_toList]
  exact Iff.rfl

/-- An ASCII character is a byte. -/
theorem byteAt?_of_lt {data : String} {lead rest : List Char} {c : Char}
    (h : data.toList = lead ++ c :: rest) (hc : c.toNat < 128) :
    byteAt? data (byteLength lead) = some (UInt8.ofNat c.toNat) := by
  have hbyte : Char.ofUInt8 (UInt8.ofNat c.toNat) = c := ofUInt8_ofNat hc
  apply (byteAt?_eq_some_iff _).mpr
  · exact ⟨lead, rest, by rw [hbyte, h], rfl⟩
  · rwa [← toNat_ofUInt8, hbyte]

/-! ## Positions between characters -/

theorem isValid_iff {data : String} {n : Nat} :
    (⟨n⟩ : String.Pos.Raw).IsValid data ↔
      ∃ lead rest, data.toList = lead ++ rest ∧ byteLength lead = n := by
  rw [String.Pos.Raw.isValid_iff_exists_append]
  constructor
  · rintro ⟨s₁, s₂, rfl, h⟩
    refine ⟨s₁.toList, s₂.toList, String.toList_append, ?_⟩
    rw [byteLength_toList]
    exact (congrArg String.Pos.Raw.byteIdx h).symm
  · rintro ⟨lead, rest, h, rfl⟩
    refine ⟨String.ofList lead, String.ofList rest, ?_, ?_⟩
    · rw [← String.ofList_append, ← h, String.ofList_toList]
    · apply String.Pos.Raw.ext
      change byteLength lead = (String.ofList lead).utf8ByteSize
      rw [← byteLength_toList, String.toList_ofList]

/-- Of two ways to cut a text, the one with fewer bytes in front is the earlier one. -/
theorem exists_of_byteLength_le {lead rest lead' rest' : List Char}
    (h : lead ++ rest = lead' ++ rest')
    (hle : byteLength lead ≤ byteLength lead') :
    ∃ text, lead' = lead ++ text ∧ rest = text ++ rest' := by
  rcases List.append_eq_append_iff.mp h with ⟨text, hlead, hrest⟩ | ⟨text, hlead, hrest⟩
  · exact ⟨text, hlead, hrest⟩
  · cases text with
    | nil =>
      rw [List.append_nil] at hlead
      exact ⟨[], by rw [hlead, List.append_nil], hrest.symm⟩
    | cons c text =>
      have := c.utf8Size_pos
      rw [hlead, byteLength_append, byteLength_cons] at hle
      omega

/-! ## Cutting out -/

/-- The part of a text between two positions. -/
def slice? (data : String) (start stop : Nat) : Option (List Char) :=
  if start ≤ stop then
    match dropBytes? start data.toList, dropBytes? stop data.toList with
    | some rest, some after => some (rest.take (rest.length - after.length))
    | _, _ => none
  else none

/-- What stands before it and in it has the lengths that the positions say. -/
theorem slice?_eq_some_iff {data : String} {start stop : Nat} {text : List Char} :
    slice? data start stop = some text ↔
      ∃ lead after, data.toList = lead ++ text ++ after ∧ byteLength lead = start ∧
        byteLength (lead ++ text) = stop := by
  rw [slice?]
  constructor
  · intro h
    split at h
    · rename_i hle
      split at h
      · rename_i rest after hrest hafter
        obtain ⟨lead, hlead, rfl⟩ := dropBytes?_eq_some_iff.mp hrest
        obtain ⟨lead', hlead', rfl⟩ := dropBytes?_eq_some_iff.mp hafter
        obtain ⟨part, rfl, rfl⟩ := exists_of_byteLength_le (hlead.symm.trans hlead') hle
        obtain rfl : part = text := by simpa using h
        exact ⟨lead, after, hlead', rfl, rfl⟩
      · cases h
    · cases h
  · rintro ⟨lead, after, h, rfl, rfl⟩
    have hrest : dropBytes? (byteLength lead) data.toList = some (text ++ after) :=
      dropBytes?_eq_some_iff.mpr ⟨lead, by rw [h, List.append_assoc], rfl⟩
    have hafter : dropBytes? (byteLength (lead ++ text)) data.toList = some after :=
      dropBytes?_eq_some_iff.mpr ⟨lead ++ text, h, rfl⟩
    rw [if_pos (by rw [byteLength_append]; omega), hrest, hafter]
    simp

end PiecewiseGlyph.Text
