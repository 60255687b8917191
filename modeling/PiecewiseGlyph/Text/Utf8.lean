/-!
# Positions in UTF-8 text

Positions are reported in bytes of the UTF-8 form, while texts are handled as lists of characters.

* `Text.byteLength` measures a list of characters; it is additive (`byteLength_append`), and the
  size of the UTF-8 form (`byteLength_toList`);
* `Text.dropBytes?` cuts at a byte position, and refuses one that is past the end or inside a
  character (`dropBytes?_eq_some_iff`).
-/

namespace PiecewiseGlyph.Text

/-- The number of bytes of the UTF-8 form. -/
def byteLength : List Char → Nat
  | [] => 0
  | c :: cs => c.utf8Size + byteLength cs

@[simp] theorem byteLength_nil : byteLength [] = 0 := rfl

@[simp] theorem byteLength_cons (c : Char) (cs : List Char) :
    byteLength (c :: cs) = c.utf8Size + byteLength cs := rfl

@[simp] theorem byteLength_append (cs ds : List Char) :
    byteLength (cs ++ ds) = byteLength cs + byteLength ds := by
  induction cs with
  | nil => simp
  | cons c cs ih => simp [ih, Nat.add_assoc]

/-- The length is that of the text's UTF-8 form. -/
theorem byteLength_toList (s : String) : byteLength s.toList = s.utf8ByteSize := by
  have hlist : ∀ cs : List Char, byteLength cs = (String.ofList cs).utf8ByteSize := by
    intro cs
    induction cs with
    | nil => simp
    | cons c cs ih => simp [ih]
  rw [hlist, String.ofList_toList]

/-- What follows the first `n` bytes, if a character ends there. -/
def dropBytes? : Nat → List Char → Option (List Char)
  | 0, cs => some cs
  | _ + 1, [] => none
  | n + 1, c :: cs => if c.utf8Size ≤ n + 1 then dropBytes? (n + 1 - c.utf8Size) cs else none
  termination_by _ cs => cs.length

/-- The cut positions are exactly the lengths of the leading parts. -/
theorem dropBytes?_eq_some_iff {n : Nat} {cs rest : List Char} :
    dropBytes? n cs = some rest ↔ ∃ lead, cs = lead ++ rest ∧ byteLength lead = n := by
  fun_induction dropBytes? n cs with
  | case1 cs =>
    constructor
    · rintro h; exact ⟨[], by simpa using h, rfl⟩
    · rintro ⟨lead, rfl, h⟩
      cases lead with
      | nil => rfl
      | cons c lead => have := c.utf8Size_pos; simp at h; omega
  | case2 n =>
    simp only [reduceCtorEq, false_iff, not_exists, not_and]
    rintro lead h
    obtain rfl : lead = [] := by cases lead <;> simp_all
    simp
  | case3 n c cs hle ih =>
    rw [ih]
    clear ih
    constructor
    · rintro ⟨lead, rfl, h⟩
      refine ⟨c :: lead, rfl, ?_⟩
      rw [byteLength_cons]; omega
    · rintro ⟨lead, h, hn⟩
      cases lead with
      | nil => simp at hn
      | cons d lead =>
        obtain ⟨rfl, rfl⟩ : c = d ∧ cs = lead ++ rest := by simpa using h
        rw [byteLength_cons] at hn
        refine ⟨lead, rfl, ?_⟩
        omega
  | case4 n c cs hle =>
    simp only [reduceCtorEq, false_iff, not_exists, not_and]
    rintro lead h hn
    cases lead with
    | nil => simp at hn
    | cons d lead =>
      obtain ⟨rfl, -⟩ : c = d ∧ cs = lead ++ rest := by simpa using h
      simp at hn; omega

end PiecewiseGlyph.Text
