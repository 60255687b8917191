import PiecewiseGlyph.Text.Utf8

/-!
# Splitting text

* `Text.isBlank` tells the characters that count as white space in path data and in the names of
  helper functions: those with the Unicode property `White_Space`. It holds of 25 code points; the
  zero-width space and the byte-order mark are not among them.
* `Text.upTo p` cuts a text at the first character with a property: nothing is lost
  (`upTo_fst_append_snd`), the first part is free of the property (`of_mem_upTo_fst`), and the
  second is empty or starts with it (`of_upTo_snd_cons`); conversely `upTo_append`,
  `upTo_append_cons` and `upTo_eq_self` say where the cut is.
* `Text.pieces p` are the non-empty parts between characters with a property
  (`pieces_eq_filter_splitOnP`, `pieces_append_cons`).
* `Text.groups n` cuts a list into runs of `n`: the only way to do so, if there is one
  (`groups_flatten`, `length_of_mem_groups`).
-/

namespace PiecewiseGlyph.Text

/-! ## Blanks -/

/-- The property `White_Space`. -/
def isBlank (c : Char) : Bool :=
  let n := c.toNat
  (0x9 ≤ n && n ≤ 0xD) || n == 0x20 || n == 0x85 || n == 0xA0 || n == 0x1680 ||
    (0x2000 ≤ n && n ≤ 0x200A) || n == 0x2028 || n == 0x2029 || n == 0x202F || n == 0x205F ||
    n == 0x3000

/-- Nothing but blanks. -/
def isAllBlank (cs : List Char) : Bool := cs.all isBlank

/-- Drop the blanks at the end. -/
def trimBlanksRight (cs : List Char) : List Char := (cs.reverse.dropWhile isBlank).reverse

variable {α : Type}

/-! ## At the first occurrence -/

/-- What stands before the first element with a property, and the rest from it on. -/
def upTo (p : α → Bool) (xs : List α) : List α × List α :=
  (xs.takeWhile (!p ·), xs.dropWhile (!p ·))

@[simp] theorem upTo_nil (p : α → Bool) : upTo p [] = ([], []) := rfl

@[simp] theorem upTo_fst_append_snd (p : α → Bool) (xs : List α) :
    (upTo p xs).1 ++ (upTo p xs).2 = xs :=
  List.takeWhile_append_dropWhile

theorem of_mem_upTo_fst {p : α → Bool} {xs : List α} {x : α} (h : x ∈ (upTo p xs).1) :
    p x = false := by
  have := List.all_eq_true.mp (List.all_takeWhile (p := (!p ·)) (l := xs)) x h
  simpa using this

theorem of_upTo_snd_cons {p : α → Bool} {xs rest : List α} {x : α}
    (h : (upTo p xs).2 = x :: rest) : p x = true := by
  induction xs with
  | nil => simp at h
  | cons y ys ih =>
    by_cases hy : p y
    · simp only [upTo, List.dropWhile_cons, hy, Bool.not_true, Bool.false_eq_true, if_false,
        List.cons.injEq] at h
      exact h.1 ▸ hy
    · simp only [upTo, List.dropWhile_cons, hy, Bool.not_false, if_true] at h
      exact ih h

/-- The cut is at the first element with the property. -/
theorem upTo_append_cons {p : α → Bool} {xs : List α} {x : α} (hxs : ∀ y ∈ xs, p y = false)
    (hx : p x = true) (rest : List α) : upTo p (xs ++ x :: rest) = (xs, x :: rest) := by
  induction xs with
  | nil => simp [upTo, hx]
  | cons y ys ih =>
    have hy : p y = false := hxs y List.mem_cons_self
    have ih := ih fun z hz => hxs z (List.mem_cons_of_mem _ hz)
    simp only [upTo, Prod.mk.injEq] at ih
    simp [upTo, hy, ih]

/-- Without such an element nothing is cut off. -/
theorem upTo_eq_self {p : α → Bool} {xs : List α} (hxs : ∀ y ∈ xs, p y = false) :
    upTo p xs = (xs, []) := by
  induction xs with
  | nil => rfl
  | cons y ys ih =>
    have hy : p y = false := hxs y List.mem_cons_self
    have ih := ih fun z hz => hxs z (List.mem_cons_of_mem _ hz)
    simp only [upTo, Prod.mk.injEq] at ih
    simp [upTo, hy, ih]

/-- The cut is between the two parts of a text if the second begins with the property, or is
empty. -/
theorem upTo_append {p : α → Bool} {xs rest : List α} (hxs : ∀ x ∈ xs, p x = false)
    (hrest : ∀ x ∈ rest.head?, p x = true) : upTo p (xs ++ rest) = (xs, rest) := by
  cases rest with
  | nil => rw [List.append_nil, upTo_eq_self hxs]
  | cons x rest => exact upTo_append_cons hxs (hrest x rfl) rest

theorem length_upTo_snd_le (p : α → Bool) (xs : List α) : (upTo p xs).2.length ≤ xs.length :=
  (List.dropWhile_sublist _).length_le

/-! ## Pieces between separators -/

/-- The non-empty parts between separators, in order. -/
def pieces (separates : α → Bool) : List α → List (List α)
  | [] => []
  | x :: xs =>
    if separates x then pieces separates xs
    else (x :: (upTo separates xs).1) :: pieces separates (upTo separates xs).2
  termination_by xs => xs.length
  decreasing_by
    · simp
    · have := length_upTo_snd_le separates xs
      simp only [List.length_cons]; omega

/-- The parts between any two separators, without the empty ones. -/
theorem pieces_eq_filter_splitOnP (separates : α → Bool) (xs : List α) :
    pieces separates xs = (xs.splitOnP separates).filter (!·.isEmpty) := by
  fun_induction pieces separates xs with
  | case1 => rfl
  | case2 x xs hx ih =>
    rw [ih, List.splitOnP_cons_eq_if_modifyHead, if_pos hx]
    rfl
  | case3 x xs hx ih =>
    have hfirst : ∀ y ∈ x :: (upTo separates xs).1, separates y = false := by
      intro y hy
      rcases List.mem_cons.mp hy with rfl | hy
      · simpa using hx
      · exact of_mem_upTo_fst hy
    rw [ih]
    conv => rhs; rw [← upTo_fst_append_snd separates xs, ← List.cons_append]
    cases hrest : (upTo separates xs).2 with
    | nil =>
      rw [List.append_nil, List.splitOnP_eq_singleton hfirst]
      rfl
    | cons y ys =>
      have hy := of_upTo_snd_cons hrest
      rw [List.splitOnP_append_cons_of_forall_mem hfirst _ hy, List.splitOnP_cons_eq_if_modifyHead,
        if_pos hy]
      rfl

/-- No piece goes across a separator. -/
theorem pieces_append_cons {separates : α → Bool} {x : α} (hx : separates x = true)
    (xs ys : List α) :
    pieces separates (xs ++ x :: ys) = pieces separates xs ++ pieces separates ys := by
  simp only [pieces_eq_filter_splitOnP]
  rw [List.splitOnP_append_cons _ _ hx, List.filter_append]

/-- Without a separator there is one piece. -/
theorem pieces_eq_singleton {separates : α → Bool} {xs : List α} (hne : xs ≠ [])
    (hxs : ∀ x ∈ xs, separates x = false) : pieces separates xs = [xs] := by
  rw [pieces_eq_filter_splitOnP, List.splitOnP_eq_singleton hxs,
    List.filter_cons_of_pos (by simpa using hne), List.filter_nil]

/-! ## Runs of a fixed length -/

/-- Runs of `n` elements; the last may be shorter. Without a length each element is a run. -/
def groups (n : Nat) : List α → List (List α)
  | [] => []
  | x :: xs => (x :: xs.take (n - 1)) :: groups n (xs.drop (n - 1))
  termination_by xs => xs.length
  decreasing_by simp only [List.length_cons, List.length_drop]; omega

/-- Nothing is lost or moved. -/
@[simp] theorem flatten_groups (n : Nat) (xs : List α) : (groups n xs).flatten = xs := by
  fun_induction groups n xs with
  | case1 => rfl
  | case2 x xs ih => simp [ih]

/-- If the length is a multiple of `n`, no run is shorter. -/
theorem length_of_mem_groups {n : Nat} {xs : List α} (hxs : xs.length % n = 0) {g : List α}
    (hg : g ∈ groups n xs) : g.length = n := by
  fun_induction groups n xs with
  | case1 => cases hg
  | case2 x xs ih =>
    have hpos : 0 < n := by
      rcases Nat.eq_zero_or_pos n with rfl | h
      · simp at hxs
      · exact h
    rw [List.length_cons] at hxs
    have hle : n ≤ xs.length + 1 := Nat.le_of_dvd (Nat.succ_pos _) (Nat.dvd_of_mod_eq_zero hxs)
    rcases List.mem_cons.mp hg with rfl | hg
    · rw [List.length_cons, List.length_take]
      omega
    · refine ih ?_ hg
      have hdrop : xs.length - (n - 1) = xs.length + 1 - n := by omega
      rw [List.length_drop, hdrop, ← Nat.mod_eq_sub_mod hle, hxs]

/-- Runs of the right length are found again. -/
theorem groups_flatten {n : Nat} (hn : 0 < n) {gs : List (List α)} (hgs : ∀ g ∈ gs, g.length = n) :
    groups n gs.flatten = gs := by
  induction gs with
  | nil => rw [List.flatten_nil, groups]
  | cons g gs ih =>
    have ih := ih fun g' hg' => hgs g' (List.mem_cons_of_mem _ hg')
    obtain ⟨x, xs, rfl⟩ : ∃ x xs, g = x :: xs := by
      have hg := hgs g List.mem_cons_self
      cases g with
      | nil => rw [List.length_nil] at hg; omega
      | cons x xs => exact ⟨x, xs, rfl⟩
    have hlen : n - 1 = xs.length := by
      have hg := hgs _ List.mem_cons_self
      rw [List.length_cons] at hg
      omega
    rw [List.flatten_cons, List.cons_append, groups, hlen, List.take_left, List.drop_left, ih]

end PiecewiseGlyph.Text
