import PiecewiseGlyph.Json.Number
import PiecewiseGlyph.Json.Quoted

/-!
# Passing over values

A value that nothing is asked of is only checked to be JSON: numbers may be out of range, and
escapes need not denote characters. Arrays and objects may be nested to any depth, since the
brackets still to be closed are kept in a list.

* `skipNested`, `skipOpened` and `skipClosing` call each other, and `step_of_skipNested`,
  `step_of_skipOpened` and `step_of_skipClosing` say what one call does;
* `skipValue` passes over one value and leaves a shorter text (`length_of_skipValue`).
-/

namespace PiecewiseGlyph.Json

/-- A bracket still to be closed. -/
inductive Bracket
  | array
  | object
  deriving DecidableEq, Repr

/-- The closing character. -/
def Bracket.closing : Bracket → Char
  | array => ']'
  | object => '}'

/-- Pass over a value that is no array and no object. -/
def skipScalar (cs : List Char) : Except Fault (List Char) :=
  match cs with
  | [] => .error .truncated
  | c :: rest =>
    if c = 'n' then readWord "ull".toList rest
    else if c = 't' then readWord "rue".toList rest
    else if c = 'f' then readWord "alse".toList rest
    else if c = '"' then skipQuoted rest
    else if startsNumber c then (scanNumber .malformed cs).map (·.2)
    else .error .malformed

/-- Read the colon after a key. -/
def readColon (cs : List Char) : Except Fault (List Char) := readWord [':'] (skipBlanks cs)

/-- Pass over a key and its colon. -/
def skipKey (cs : List Char) : Except Fault (List Char) := do
  readColon (← skipQuoted (← readWord ['"'] (skipBlanks cs)))

theorem length_of_skipScalar {cs rest : List Char} (h : skipScalar cs = .ok rest) :
    rest.length < cs.length := by
  unfold skipScalar at h
  split at h
  · cases h
  · rename_i c cs
    simp only [List.length_cons]
    split at h
    · have hrest := length_of_readWord h; omega
    split at h
    · have hrest := length_of_readWord h; omega
    split at h
    · have hrest := length_of_readWord h; omega
    split at h
    · have hrest := length_of_skipQuoted h; omega
    split at h
    · obtain ⟨⟨parts, rest'⟩, hs, rfl⟩ := map_eq_ok.mp h
      have hrest := length_of_scanNumber hs
      simpa using hrest
    · cases h

theorem length_of_readColon {cs rest : List Char} (h : readColon cs = .ok rest) :
    rest.length < cs.length := by
  have h₁ := length_of_readWord h
  have h₂ := length_skipBlanks_le cs
  simp only [List.length_cons, List.length_nil] at h₁; omega

theorem length_of_skipKey {cs rest : List Char} (h : skipKey cs = .ok rest) :
    rest.length < cs.length := by
  obtain ⟨r₁, hq, h⟩ := bind_eq_ok.mp h
  obtain ⟨r₂, hs, h⟩ := bind_eq_ok.mp h
  have h₁ := length_of_readWord hq
  have h₂ := length_of_skipQuoted hs
  have h₃ := length_of_readColon h
  have h₄ := length_skipBlanks_le cs
  simp only [List.length_cons, List.length_nil] at h₁; omega

mutual

/-- Pass over a value and all that closes the open brackets. -/
def skipNested (brackets : List Bracket) (cs : List Char) : Except Fault (List Char) :=
  match _h : skipBlanks cs with
  | [] => .error .truncated
  | c :: rest =>
    if c = '[' then skipOpened .array brackets rest
    else if c = '{' then skipOpened .object brackets rest
    else
      match _hs : skipScalar (c :: rest) with
      | .error e => .error e
      | .ok rest => skipClosing brackets rest
  termination_by 2 * cs.length
  decreasing_by
    all_goals
      have := length_skipBlanks_le cs
      rw [_h, List.length_cons] at this
      try have := length_of_skipScalar _hs
      try simp only [List.length_cons] at *
      omega

/-- Pass over what follows an opening bracket. -/
def skipOpened (bracket : Bracket) (brackets : List Bracket) (cs : List Char) :
    Except Fault (List Char) :=
  match _h : skipBlanks cs with
  | [] => .error .truncated
  | c :: rest =>
    if c = bracket.closing then skipClosing brackets rest
    else
      match bracket with
      | .array => skipNested (.array :: brackets) (c :: rest)
      | .object =>
        match _hk : skipKey (c :: rest) with
        | .error e => .error e
        | .ok rest => skipNested (.object :: brackets) rest
  termination_by 2 * cs.length + 1
  decreasing_by
    all_goals
      have := length_skipBlanks_le cs
      rw [_h, List.length_cons] at this
      try have := length_of_skipKey _hk
      try simp only [List.length_cons] at *
      omega

/-- Pass over what follows a value. -/
def skipClosing (brackets : List Bracket) (cs : List Char) : Except Fault (List Char) :=
  match brackets with
  | [] => .ok cs
  | bracket :: brackets =>
    match _h : skipBlanks cs with
    | [] => .error .truncated
    | c :: rest =>
      if c = bracket.closing then skipClosing brackets rest
      else if c = ',' then
        match bracket with
        | .array => skipNested (.array :: brackets) rest
        | .object =>
          match _hk : skipKey rest with
          | .error e => .error e
          | .ok rest => skipNested (.object :: brackets) rest
      else .error .malformed
  termination_by 2 * cs.length
  decreasing_by
    all_goals
      have := length_skipBlanks_le cs
      rw [_h, List.length_cons] at this
      try have := length_of_skipKey _hk
      omega

end

/-! ## What one call does -/

/-- The opening character. -/
def Bracket.opening : Bracket → Char
  | array => '['
  | object => '{'

/-- Pass over what stands before a value between brackets: in an object its key. -/
def Bracket.skipToValue : Bracket → List Char → Except Fault (List Char)
  | array, cs => .ok cs
  | object, cs => skipKey cs

theorem Bracket.length_of_skipToValue {bracket : Bracket} {cs rest : List Char}
    (h : bracket.skipToValue cs = .ok rest) : rest.length ≤ cs.length := by
  cases bracket with
  | array =>
    obtain rfl := Except.ok.inj h
    exact Nat.le_refl _
  | object => exact Nat.le_of_lt (length_of_skipKey h)

section Steps

variable {bracket : Bracket} {brackets : List Bracket} {cs rest : List Char}

/-- A value opens a bracket, or it is a scalar that closing brackets or further values follow. -/
theorem step_of_skipNested (h : skipNested brackets cs = .ok rest) :
    ∃ c r, skipBlanks cs = c :: r ∧
      ((∃ bracket : Bracket, c = bracket.opening ∧ skipOpened bracket brackets r = .ok rest) ∨
        ∃ r', skipScalar (c :: r) = .ok r' ∧ skipClosing brackets r' = .ok rest) := by
  unfold skipNested at h
  split at h
  · cases h
  rename_i c r hblanks
  refine ⟨c, r, hblanks, ?_⟩
  split at h
  · exact .inl ⟨.array, ‹_›, h⟩
  split at h
  · exact .inl ⟨.object, ‹_›, h⟩
  split at h
  · cases h
  · rename_i r' hscalar
    exact .inr ⟨r', hscalar, h⟩

/-- An opened bracket is closed at once, or a first value stands in it. -/
theorem step_of_skipOpened (h : skipOpened bracket brackets cs = .ok rest) :
    ∃ c r, skipBlanks cs = c :: r ∧
      (c = bracket.closing ∧ skipClosing brackets r = .ok rest ∨
        c ≠ bracket.closing ∧ ∃ r', bracket.skipToValue (c :: r) = .ok r' ∧
          skipNested (bracket :: brackets) r' = .ok rest) := by
  unfold skipOpened at h
  split at h
  · cases h
  rename_i c r hblanks
  refine ⟨c, r, hblanks, ?_⟩
  split at h
  · exact .inl ⟨‹_›, h⟩
  split at h
  · exact .inr ⟨‹_›, c :: r, rfl, h⟩
  split at h
  · cases h
  · rename_i r' hkey
    exact .inr ⟨‹_›, r', hkey, h⟩

/-- After a value the last opened bracket is closed, or a comma and a further value follow. -/
theorem step_of_skipClosing (h : skipClosing (bracket :: brackets) cs = .ok rest) :
    ∃ c r, skipBlanks cs = c :: r ∧
      (c = bracket.closing ∧ skipClosing brackets r = .ok rest ∨
        c = ',' ∧ ∃ r', bracket.skipToValue r = .ok r' ∧
          skipNested (bracket :: brackets) r' = .ok rest) := by
  unfold skipClosing at h
  split at h
  · cases h
  rename_i c r hblanks
  refine ⟨c, r, hblanks, ?_⟩
  split at h
  · exact .inl ⟨‹_›, h⟩
  split at h
  · split at h
    · exact .inr ⟨‹_›, r, rfl, h⟩
    split at h
    · cases h
    · rename_i r' hkey
      exact .inr ⟨‹_›, r', hkey, h⟩
  · cases h

theorem skipClosing_nil (cs : List Char) : skipClosing [] cs = .ok cs := by
  unfold skipClosing
  rfl

end Steps

/-! ## Texts get shorter -/

mutual

/-- Passing over a value and all that closes the open brackets leaves a shorter text. -/
theorem length_of_skipNested {brackets : List Bracket} {cs rest : List Char}
    (h : skipNested brackets cs = .ok rest) : rest.length < cs.length := by
  obtain ⟨c, r, hblanks, ⟨bracket, -, h⟩ | ⟨r', hscalar, h⟩⟩ := step_of_skipNested h
  · have hr := length_of_skipBlanks hblanks
    have hrest := length_of_skipOpened h
    omega
  · have hr := length_of_skipBlanks hblanks
    have hr' : r'.length ≤ r.length := Nat.le_of_lt_succ (length_of_skipScalar hscalar)
    have hrest := length_of_skipClosing h
    omega
  termination_by 2 * cs.length

/-- So does passing over what follows an opening bracket. -/
theorem length_of_skipOpened {bracket : Bracket} {brackets : List Bracket} {cs rest : List Char}
    (h : skipOpened bracket brackets cs = .ok rest) : rest.length < cs.length := by
  obtain ⟨c, r, hblanks, ⟨-, h⟩ | ⟨-, r', hvalue, h⟩⟩ := step_of_skipOpened h
  · have hr := length_of_skipBlanks hblanks
    have hrest := length_of_skipClosing h
    omega
  · have hr := length_of_skipBlanks hblanks
    have hr' : r'.length ≤ r.length + 1 := Bracket.length_of_skipToValue hvalue
    have hrest := length_of_skipNested h
    omega
  termination_by 2 * cs.length + 1

/-- Passing over what follows a value leaves no longer text; it stays if no bracket is open. -/
theorem length_of_skipClosing {brackets : List Bracket} {cs rest : List Char}
    (h : skipClosing brackets cs = .ok rest) : rest.length ≤ cs.length := by
  cases brackets with
  | nil =>
    rw [skipClosing_nil] at h
    obtain rfl := Except.ok.inj h
    exact Nat.le_refl _
  | cons bracket brackets =>
    obtain ⟨c, r, hblanks, ⟨-, h⟩ | ⟨-, r', hvalue, h⟩⟩ := step_of_skipClosing h
    · have hr := length_of_skipBlanks hblanks
      have hrest := length_of_skipClosing h
      omega
    · have hr := length_of_skipBlanks hblanks
      have hr' := Bracket.length_of_skipToValue hvalue
      have hrest := length_of_skipNested h
      omega
  termination_by 2 * cs.length

end

/-! ## One value -/

/-- Pass over one value. -/
def skipValue (cs : List Char) : Except Fault (List Char) := skipNested [] cs

theorem length_of_skipValue {cs rest : List Char} (h : skipValue cs = .ok rest) :
    rest.length < cs.length :=
  length_of_skipNested h

end PiecewiseGlyph.Json
