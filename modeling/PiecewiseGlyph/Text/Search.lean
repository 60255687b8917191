/-!
# Finding a word in a text

* `Text.dropWord? word` takes a word off the front of a text (`dropWord?_eq_some_iff`);
* `Text.splitAtWord? word` cuts at the first occurrence of a word: nothing is lost
  (`eq_of_splitAtWord?`), and the word is found (`splitAtWord?_append`).
-/

namespace PiecewiseGlyph.Text

variable {α : Type} [DecidableEq α]

/-- What follows a word at the front. -/
def dropWord? : List α → List α → Option (List α)
  | [], xs => some xs
  | _ :: _, [] => none
  | w :: ws, x :: xs => if x = w then dropWord? ws xs else none

theorem dropWord?_eq_some_iff {word xs rest : List α} :
    dropWord? word xs = some rest ↔ xs = word ++ rest := by
  fun_induction dropWord? word xs with
  | case1 xs => simp
  | case2 => simp
  | case3 w ws xs ih => simp [ih]
  | case4 w ws x xs h => simp [h]

@[simp] theorem dropWord?_append (word rest : List α) : dropWord? word (word ++ rest) = some rest :=
  dropWord?_eq_some_iff.mpr rfl

/-- A text that begins with another character does not begin with the word. -/
theorem dropWord?_cons_of_ne {w x : α} (h : x ≠ w) (ws xs : List α) :
    dropWord? (w :: ws) (x :: xs) = none := by
  rw [dropWord?, if_neg h]

/-- What stands before the first occurrence of a word, and what follows it. -/
def splitAtWord? (word : List α) : List α → Option (List α × List α)
  | [] => (dropWord? word []).map ([], ·)
  | x :: xs =>
    match dropWord? word (x :: xs) with
    | some rest => some ([], rest)
    | none => (splitAtWord? word xs).map fun (before, rest) => (x :: before, rest)

/-- Nothing is lost. -/
theorem eq_of_splitAtWord? {word xs before rest : List α}
    (h : splitAtWord? word xs = some (before, rest)) : xs = before ++ (word ++ rest) := by
  induction xs generalizing before with
  | nil =>
    simp only [splitAtWord?, Option.map_eq_some_iff] at h
    obtain ⟨r, hr, h⟩ := h
    obtain ⟨rfl, rfl⟩ := Prod.mk.inj h
    rw [List.nil_append, dropWord?_eq_some_iff.mp hr]
  | cons x xs ih =>
    unfold splitAtWord? at h
    split at h
    · rename_i r hr
      obtain ⟨rfl, rfl⟩ := Prod.mk.inj (Option.some.inj h)
      rw [List.nil_append, dropWord?_eq_some_iff.mp hr]
    · obtain ⟨⟨b, r⟩, hs, h⟩ := Option.map_eq_some_iff.mp h
      obtain ⟨rfl, rfl⟩ := Prod.mk.inj h
      rw [ih hs, List.cons_append]

/-- The word is found behind a text that does not have its first character. -/
theorem splitAtWord?_append {w : α} {before : List α} (h : w ∉ before) (ws rest : List α) :
    splitAtWord? (w :: ws) (before ++ (w :: ws ++ rest)) = some (before, rest) := by
  induction before with
  | nil =>
    rw [List.nil_append, List.cons_append, splitAtWord?, ← List.cons_append, dropWord?_append]
  | cons x xs ih =>
    have hx : x ≠ w := fun hx => h (hx ▸ List.mem_cons_self)
    rw [List.cons_append, splitAtWord?, dropWord?_cons_of_ne hx,
      ih fun hw => h (List.mem_cons_of_mem x hw)]
    rfl

end PiecewiseGlyph.Text
