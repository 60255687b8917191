import PiecewiseGlyph.Json.Reader
import PiecewiseGlyph.Text.Utf8

/-!
# Quoted text

Text between quotes, with a backslash before what cannot stand for itself: quotes, backslashes and
control characters.

* `quote` writes text, escaping nothing else;
* `readQuoted` reads it back from after the opening quote (`readQuoted_flatMap_escapeChar`).
  Hexadecimal escapes denote UTF-16 units, so that characters beyond the first 65536 take a pair of
  them; half a pair is malformed;
* `skipQuoted` passes over text without asking what its escapes denote.
-/

namespace PiecewiseGlyph.Json

/-! ## Writing -/

/-- A hexadecimal digit. -/
def hexDigit (n : Nat) : Char := n.digitChar

/-- A character within quotes. -/
def escapeChar (c : Char) : List Char :=
  if c = '"' then ['\\', '"']
  else if c = '\\' then ['\\', '\\']
  else if c = '\x08' then ['\\', 'b']
  else if c = '\x0c' then ['\\', 'f']
  else if c = '\n' then ['\\', 'n']
  else if c = '\r' then ['\\', 'r']
  else if c = '\t' then ['\\', 't']
  else if c.toNat < 0x20 then
    ['\\', 'u', '0', '0', hexDigit (c.toNat / 16), hexDigit (c.toNat % 16)]
  else [c]

/-- Text within quotes. -/
def quote (s : String) : String := "\"" ++ String.ofList (s.toList.flatMap escapeChar) ++ "\""

/-! ## Reading -/

/-- The value of a hexadecimal digit in either case. -/
def hexValue? (c : Char) : Option Nat :=
  if c.isDigit then some (c.toNat - '0'.toNat)
  else if 'a' ≤ c ∧ c ≤ 'f' then some (c.toNat - 'a'.toNat + 10)
  else if 'A' ≤ c ∧ c ≤ 'F' then some (c.toNat - 'A'.toNat + 10)
  else none

/-- The number of four hexadecimal digits, which end early if fewer than four bytes are left. -/
def readHex (cs : List Char) : Except Fault (Nat × List Char) :=
  match cs with
  | a :: b :: c :: d :: rest =>
    match hexValue? a, hexValue? b, hexValue? c, hexValue? d with
    | some a, some b, some c, some d => .ok (((a * 16 + b) * 16 + c) * 16 + d, rest)
    | _, _, _, _ => .error .malformed
  | _ => .error (if Text.byteLength cs < 4 then .truncated else .malformed)

theorem length_of_readHex {cs rest : List Char} {n : Nat} (h : readHex cs = .ok (n, rest)) :
    rest.length + 4 = cs.length := by
  unfold readHex at h
  split at h
  · split at h
    · cases h; simp
    · cases h
  · cases h

/-- Is this unit the first of a pair? -/
def isHighSurrogate (n : Nat) : Bool := 0xD800 ≤ n && n ≤ 0xDBFF

/-- Is this unit the second of a pair? -/
def isLowSurrogate (n : Nat) : Bool := 0xDC00 ≤ n && n ≤ 0xDFFF

/-- The second unit of a pair, with its escape. -/
def readLowSurrogate (cs : List Char) : Except Fault (Nat × List Char) := do
  let (n, rest) ← readHex (← readWord ['\\', 'u'] cs)
  if isLowSurrogate n then return (n, rest) else throw .malformed

/-- The character of a hexadecimal escape, from after its letter. -/
def readUnit (cs : List Char) : Except Fault (Char × List Char) := do
  let (n, rest) ← readHex cs
  if isLowSurrogate n then throw .malformed
  else if isHighSurrogate n then
    let (low, rest) ← readLowSurrogate rest
    return (Char.ofNat ((n - 0xD800) * 0x400 + (low - 0xDC00) + 0x10000), rest)
  else return (Char.ofNat n, rest)

/-- What a one-letter escape denotes. -/
def simpleEscape? : Char → Option Char
  | '"' => some '"'
  | '\\' => some '\\'
  | '/' => some '/'
  | 'b' => some '\x08'
  | 'f' => some '\x0c'
  | 'n' => some '\n'
  | 'r' => some '\r'
  | 't' => some '\t'
  | _ => none

/-- The character of an escape, from after the backslash. -/
def readEscape : List Char → Except Fault (Char × List Char)
  | [] => .error .truncated
  | c :: cs =>
    if c = 'u' then readUnit cs
    else
      match simpleEscape? c with
      | some x => .ok (x, cs)
      | none => .error .malformed

theorem length_of_readLowSurrogate {cs rest : List Char} {n : Nat}
    (h : readLowSurrogate cs = .ok (n, rest)) : rest.length ≤ cs.length := by
  obtain ⟨cs', hw, h⟩ := bind_eq_ok.mp h
  obtain ⟨⟨n', rest'⟩, hx, h⟩ := bind_eq_ok.mp h
  have := length_of_readWord hw
  have := length_of_readHex hx
  dsimp only at h
  split at h <;> cases h
  omega

theorem length_of_readUnit {cs rest : List Char} {c : Char} (h : readUnit cs = .ok (c, rest)) :
    rest.length ≤ cs.length := by
  obtain ⟨⟨n, rest'⟩, hx, h⟩ := bind_eq_ok.mp h
  have := length_of_readHex hx
  dsimp only at h
  split at h
  · cases h
  · split at h
    · obtain ⟨⟨low, rest''⟩, hl, h⟩ := bind_eq_ok.mp h
      have := length_of_readLowSurrogate hl
      obtain ⟨-, rfl⟩ := Prod.mk.inj (Except.ok.inj h)
      dsimp only; omega
    · obtain ⟨-, rfl⟩ := Prod.mk.inj (Except.ok.inj h)
      omega

theorem length_of_readEscape {cs rest : List Char} {c : Char} (h : readEscape cs = .ok (c, rest)) :
    rest.length < cs.length := by
  unfold readEscape at h
  split at h
  · cases h
  · split at h
    · have := length_of_readUnit h
      simp only [List.length_cons]; omega
    · split at h <;> cases h
      simp

/-- Text up to the closing quote. -/
def readQuoted (cs : List Char) : Except Fault (List Char × List Char) :=
  match cs with
  | [] => .error .truncated
  | c :: cs =>
    if c = '"' then .ok ([], cs)
    else if c = '\\' then
      match _h : readEscape cs with
      | .error e => .error e
      | .ok (x, rest) => (readQuoted rest).map fun (text, rest) => (x :: text, rest)
    else if c.toNat < 0x20 then .error .malformed
    else (readQuoted cs).map fun (text, rest) => (c :: text, rest)
  termination_by cs.length
  decreasing_by
    · have := length_of_readEscape _h
      simp only [List.length_cons]; omega
    · simp

theorem length_of_readQuoted {cs text rest : List Char} (h : readQuoted cs = .ok (text, rest)) :
    rest.length < cs.length := by
  fun_induction readQuoted cs generalizing text with
  | case1 => cases h
  | case2 => cases h; simp
  | case3 => cases h
  | case4 cs x rest' hx _ ih =>
    obtain ⟨⟨text', rest''⟩, hr, h⟩ := map_eq_ok.mp h
    cases h
    have := ih hr
    have := length_of_readEscape hx
    simp only [List.length_cons]; omega
  | case5 => cases h
  | case6 c cs _ _ _ ih =>
    obtain ⟨⟨text', rest''⟩, hr, h⟩ := map_eq_ok.mp h
    cases h
    have := ih hr
    simp only [List.length_cons]; omega

/-! ## Reading back -/

theorem hexValue?_hexDigit {n : Nat} (h : n < 16) : hexValue? (hexDigit n) = some n := by
  have : ∀ k : Fin 16, hexValue? (hexDigit k) = some k.val := by decide
  exact this ⟨n, h⟩

theorem readEscape_control {c : Char} (h : c.toNat < 0x20) (cs : List Char) :
    readEscape ('u' :: '0' :: '0' :: hexDigit (c.toNat / 16) :: hexDigit (c.toNat % 16) :: cs) =
      .ok (c, cs) := by
  have h₁ := hexValue?_hexDigit (show c.toNat / 16 < 16 by omega)
  have h₂ := hexValue?_hexDigit (show c.toNat % 16 < 16 by omega)
  have h₀ : hexValue? '0' = some 0 := rfl
  have hn : c.toNat / 16 * 16 + c.toNat % 16 = c.toNat := by omega
  have hl : isLowSurrogate c.toNat = false := by simp [isLowSurrogate]; omega
  have hh : isHighSurrogate c.toNat = false := by simp [isHighSurrogate]; omega
  simp [readEscape, readUnit, readHex, h₀, h₁, h₂, hn, hl, hh, bind, Except.bind, pure, Except.pure]

theorem readQuoted_escape {cs rest : List Char} {c : Char} (h : readEscape cs = .ok (c, rest)) :
    readQuoted ('\\' :: cs) = (readQuoted rest).map fun (text, rest) => (c :: text, rest) := by
  rw [readQuoted, if_neg (by decide), if_pos rfl]
  split
  · rename_i e he
    rw [he] at h; cases h
  · rename_i x rest' he
    rw [he] at h
    obtain ⟨rfl, rfl⟩ := Prod.mk.inj (Except.ok.inj h)
    rfl

/-- A character is read back from its written form. -/
theorem readQuoted_escapeChar (c : Char) (cs : List Char) :
    readQuoted (escapeChar c ++ cs) =
      (readQuoted cs).map fun (text, rest) => (c :: text, rest) := by
  by_cases h₁ : c = '"'
  · subst h₁; exact readQuoted_escape rfl
  by_cases h₂ : c = '\\'
  · subst h₂; exact readQuoted_escape rfl
  by_cases h₃ : c = '\x08'
  · subst h₃; exact readQuoted_escape rfl
  by_cases h₄ : c = '\x0c'
  · subst h₄; exact readQuoted_escape rfl
  by_cases h₅ : c = '\n'
  · subst h₅; exact readQuoted_escape rfl
  by_cases h₆ : c = '\r'
  · subst h₆; exact readQuoted_escape rfl
  by_cases h₇ : c = '\t'
  · subst h₇; exact readQuoted_escape rfl
  by_cases h₈ : c.toNat < 0x20
  · simp only [escapeChar, h₁, h₂, h₃, h₄, h₅, h₆, h₇, h₈, if_true, if_false]
    exact readQuoted_escape (readEscape_control h₈ cs)
  · simp only [escapeChar, h₁, h₂, h₃, h₄, h₅, h₆, h₇, h₈, if_false, List.cons_append,
      List.nil_append]
    rw [readQuoted, if_neg h₁, if_neg h₂, if_neg h₈]

/-- Text is read back from its written form, up to the closing quote. -/
theorem readQuoted_flatMap_escapeChar (cs rest : List Char) :
    readQuoted (cs.flatMap escapeChar ++ '"' :: rest) = .ok (cs, rest) := by
  induction cs with
  | nil => rw [List.flatMap_nil, List.nil_append, readQuoted, if_pos rfl]
  | cons c cs ih =>
    rw [List.flatMap_cons, List.append_assoc, readQuoted_escapeChar, ih]
    rfl

/-! ## Passing over -/

/-- Pass over an escape, from after the backslash. -/
def skipEscape : List Char → Except Fault (List Char)
  | [] => .error .truncated
  | c :: cs =>
    if c = 'u' then (readHex cs).map (·.2)
    else if (simpleEscape? c).isSome then .ok cs
    else .error .malformed

theorem length_of_skipEscape {cs rest : List Char} (h : skipEscape cs = .ok rest) :
    rest.length < cs.length := by
  unfold skipEscape at h
  split at h
  · cases h
  · split at h
    · obtain ⟨⟨n, rest'⟩, hx, h⟩ := map_eq_ok.mp h
      have := length_of_readHex hx
      cases h; simp only [List.length_cons]; omega
    · split at h <;> cases h
      simp

/-- Pass over text up to the closing quote. -/
def skipQuoted (cs : List Char) : Except Fault (List Char) :=
  match cs with
  | [] => .error .truncated
  | c :: cs =>
    if c = '"' then .ok cs
    else if c = '\\' then
      match _h : skipEscape cs with
      | .error e => .error e
      | .ok rest => skipQuoted rest
    else if c.toNat < 0x20 then .error .malformed
    else skipQuoted cs
  termination_by cs.length
  decreasing_by
    · have := length_of_skipEscape _h
      simp only [List.length_cons]; omega
    · simp

theorem length_of_skipQuoted {cs rest : List Char} (h : skipQuoted cs = .ok rest) :
    rest.length < cs.length := by
  fun_induction skipQuoted cs with
  | case1 => cases h
  | case2 => cases h; simp
  | case3 => cases h
  | case4 cs rest' hx _ ih =>
    have := ih h
    have := length_of_skipEscape hx
    simp only [List.length_cons]; omega
  | case5 => cases h
  | case6 c cs _ _ _ ih =>
    have := ih h
    simp only [List.length_cons]; omega

end PiecewiseGlyph.Json
