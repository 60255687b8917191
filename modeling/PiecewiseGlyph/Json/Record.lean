import PiecewiseGlyph.Json.Number
import PiecewiseGlyph.Json.Quoted
import PiecewiseGlyph.Json.Skip

/-!
# Records

A record is written as an object, whose unknown members are passed over, or as an array of its
fields in order, of which the last ones may be missing. A known member may be given only once.

* `Field` is a field of a record: its name, and a reader that stores its value;
* `readReal`, `readText`, `readFlag` read values of one shape, and `orNull` allows null;
* `readRecord` reads a record, starting from default values, and `readDocument` a whole text.
-/

namespace PiecewiseGlyph.Json

/-! ## Values of one shape -/

/-- Reject a value of another shape: what is wrong in it comes first. -/
def rejectValue {α : Type} (cs : List Char) : Except Fault α :=
  match cs with
  | [] => .error .truncated
  | c :: rest => do
    if c = 'n' then let _ ← readWord "ull".toList rest; throw .mismatched
    else if c = 't' then let _ ← readWord "rue".toList rest; throw .mismatched
    else if c = 'f' then let _ ← readWord "alse".toList rest; throw .mismatched
    else if c = '"' then let _ ← readQuoted rest; throw .mismatched
    else if startsNumber c then let _ ← readNumber cs; throw .mismatched
    else if c = '[' ∨ c = '{' then throw .mismatched
    else throw .malformed

/-- A value of another shape is never accepted. -/
theorem rejectValue_ne_ok {α : Type} {cs : List Char} {a : α} : rejectValue cs ≠ .ok a := by
  intro h
  unfold rejectValue at h
  split at h
  · cases h
  · repeat' split at h
    all_goals
      first
      | cases h
      | (obtain ⟨_, _, h⟩ := bind_eq_ok.mp h; cases h)

/-- A number. -/
def readReal : Reader Float := fun cs =>
  match skipBlanks cs with
  | c :: rest => if startsNumber c then readNumber (c :: rest) else rejectValue (c :: rest)
  | [] => .error .truncated

/-- A text. -/
def readText : Reader String := fun cs =>
  match skipBlanks cs with
  | c :: rest =>
    if c = '"' then (readQuoted rest).map fun (text, rest) => (String.ofList text, rest)
    else rejectValue (c :: rest)
  | [] => .error .truncated

/-- A truth value. -/
def readFlag : Reader Bool := fun cs =>
  match skipBlanks cs with
  | c :: rest =>
    if c = 't' then (readWord "rue".toList rest).map (true, ·)
    else if c = 'f' then (readWord "alse".toList rest).map (false, ·)
    else rejectValue (c :: rest)
  | [] => .error .truncated

/-- A value, or null. -/
def orNull {α : Type} (r : Reader α) : Reader (Option α) := fun cs =>
  match skipBlanks cs with
  | c :: rest =>
    if c = 'n' then (readWord "ull".toList rest).map (none, ·)
    else (r (c :: rest)).map fun (a, rest) => (some a, rest)
  | [] => .error .truncated

theorem readReal_neverGrows : readReal.NeverGrows := by
  intro cs x rest h
  have hb := length_skipBlanks_le cs
  unfold readReal at h
  split at h
  · rename_i c r hr
    rw [hr] at hb
    split at h
    · have := length_of_readNumber h; omega
    · exact absurd h rejectValue_ne_ok
  · cases h

theorem readText_neverGrows : readText.NeverGrows := by
  intro cs x rest h
  unfold readText at h
  split at h
  · rename_i c r hr
    have hb := length_of_skipBlanks hr
    split at h
    · obtain ⟨⟨text, rest'⟩, hq, h⟩ := map_eq_ok.mp h
      have := length_of_readQuoted hq
      obtain ⟨-, rfl⟩ := Prod.mk.inj h
      omega
    · exact absurd h rejectValue_ne_ok
  · cases h

theorem readFlag_neverGrows : readFlag.NeverGrows := by
  intro cs x rest h
  unfold readFlag at h
  split at h
  · rename_i c r hr
    have hb := length_of_skipBlanks hr
    split at h
    · obtain ⟨rest', hw, h⟩ := map_eq_ok.mp h
      have := length_of_readWord hw
      obtain ⟨-, rfl⟩ := Prod.mk.inj h
      omega
    split at h
    · obtain ⟨rest', hw, h⟩ := map_eq_ok.mp h
      have := length_of_readWord hw
      obtain ⟨-, rfl⟩ := Prod.mk.inj h
      omega
    · exact absurd h rejectValue_ne_ok
  · cases h

theorem orNull_neverGrows {α : Type} {r : Reader α} (hr : r.NeverGrows) :
    (orNull r).NeverGrows := by
  intro cs x rest h
  have hb := length_skipBlanks_le cs
  unfold orNull at h
  split at h
  · rename_i c cs' hc
    rw [hc] at hb
    split at h
    · obtain ⟨rest', hw, h⟩ := map_eq_ok.mp h
      have := length_of_readWord hw
      obtain ⟨-, rfl⟩ := Prod.mk.inj h
      rw [List.length_cons] at hb; omega
    · obtain ⟨⟨a, rest'⟩, ha, h⟩ := map_eq_ok.mp h
      have := hr _ _ _ ha
      obtain ⟨-, rfl⟩ := Prod.mk.inj h
      omega
  · cases h

/-! ## Fields -/

/-- A field of a record of type `σ`. -/
structure Field (σ : Type) where
  name : String
  /-- Read the value and store it. -/
  read : σ → Reader σ
  neverGrows : ∀ s, (read s).NeverGrows

/-- A field that is read by a reader and stored by a function. -/
def Field.of {σ α : Type} (name : String) (r : Reader α) (hr : r.NeverGrows) (store : σ → α → σ) :
    Field σ where
  name
  read s cs := (r cs).map fun (a, rest) => (store s a, rest)
  neverGrows s cs s' rest h := by
    obtain ⟨⟨a, rest'⟩, ha, h⟩ := map_eq_ok.mp h
    obtain ⟨-, rfl⟩ := Prod.mk.inj h
    exact hr _ _ _ ha

variable {σ : Type}

/-! ## Arrays -/

/-- The end of an array all of whose fields are read. -/
def closeArray (cs : List Char) : Except Fault (List Char) := readWord [']'] (skipBlanks cs)

/-- What stands between two elements: a comma that an element follows. -/
def readElementComma (cs : List Char) : Except Fault (List Char) :=
  match cs with
  | ',' :: cs =>
    match skipBlanks cs with
    | [] => .error .truncated
    | c :: rest => if c = ']' then .error .malformed else .ok (c :: rest)
  | _ => .error .malformed

/-- Read the fields still missing; `first` tells that none has been read. -/
def readElements (first : Bool) (s : σ) : List (Field σ) → Reader σ
  | [], cs => (closeArray cs).map (s, ·)
  | field :: fields, cs =>
    match skipBlanks cs with
    | [] => .error .truncated
    | c :: rest => do
      if c = ']' then return (s, rest)
      else
        let element ← if first then pure (c :: rest) else readElementComma (c :: rest)
        let (s, rest) ← field.read s element
        readElements false s fields rest

/-! ## Objects -/

/-- What stands before a member: its quote, after a comma unless it is the first. -/
def readMemberStart (first : Bool) (cs : List Char) : Except Fault (List Char) := do
  if first then readWord ['"'] cs
  else readWord ['"'] (skipBlanks (← readWord [','] cs))

theorem length_of_readMemberStart {first : Bool} {cs rest : List Char}
    (h : readMemberStart first cs = .ok rest) : rest.length < cs.length := by
  unfold readMemberStart at h
  split at h
  · have := length_of_readWord h
    simp only [List.length_cons, List.length_nil] at this; omega
  · obtain ⟨r, hc, h⟩ := bind_eq_ok.mp h
    have h₁ := length_of_readWord hc
    have h₂ := length_of_readWord h
    have h₃ := length_skipBlanks_le r
    simp only [List.length_cons, List.length_nil] at h₁ h₂; omega

/-- The key of a member, with its quotes. -/
def readKey (first : Bool) (cs : List Char) : Except Fault (String × List Char) := do
  let (key, rest) ← readQuoted (← readMemberStart first cs)
  return (String.ofList key, rest)

theorem length_of_readKey {first : Bool} {cs rest : List Char} {key : String}
    (h : readKey first cs = .ok (key, rest)) : rest.length < cs.length := by
  obtain ⟨r, hm, h⟩ := bind_eq_ok.mp h
  obtain ⟨⟨key', rest'⟩, hq, h⟩ := bind_eq_ok.mp h
  have h₁ := length_of_readMemberStart hm
  have h₂ := length_of_readQuoted hq
  obtain ⟨-, rfl⟩ := Prod.mk.inj (Except.ok.inj h)
  omega

/-- Read the value of a member and store it, if its key is that of a field. -/
def readMember (fields : List (Field σ)) (seen : List String) (s : σ) (key : String)
    (cs : List Char) : Except Fault (σ × List Char) := do
  match fields.find? (·.name == key) with
  | none => return (s, ← skipValue (← readColon cs))
  | some field =>
    if seen.contains key then throw .mismatched else field.read s (← readColon cs)

theorem length_of_readMember {fields : List (Field σ)} {seen : List String} {s s' : σ}
    {key : String} {cs rest : List Char} (h : readMember fields seen s key cs = .ok (s', rest)) :
    rest.length ≤ cs.length := by
  unfold readMember at h
  split at h
  · obtain ⟨r, hc, h⟩ := bind_eq_ok.mp h
    obtain ⟨r', hv, h⟩ := bind_eq_ok.mp h
    have h₁ := length_of_readColon hc
    have h₂ := length_of_skipValue hv
    obtain ⟨-, rfl⟩ := Prod.mk.inj (Except.ok.inj h)
    omega
  · split at h
    · cases h
    · obtain ⟨r, hc, h⟩ := bind_eq_ok.mp h
      have h₁ := length_of_readColon hc
      have h₂ := Field.neverGrows _ _ _ _ _ h
      omega

/-- Read the members of an object; `seen` are the keys read before. -/
def readMembers (fields : List (Field σ)) (first : Bool) (seen : List String) (s : σ)
    (cs : List Char) : Except Fault (σ × List Char) :=
  match _h : skipBlanks cs with
  | [] => .error .truncated
  | c :: rest =>
    if c = '}' then .ok (s, rest)
    else
      match _hk : readKey first (c :: rest) with
      | .error e => .error e
      | .ok (key, rest) =>
        match _hm : readMember fields seen s key rest with
        | .error e => .error e
        | .ok (s, rest) => readMembers fields false (key :: seen) s rest
  termination_by cs.length
  decreasing_by
    have h₁ := length_skipBlanks_le cs
    have h₂ := length_of_readKey _hk
    have h₃ := length_of_readMember _hm
    rw [_h] at h₁
    omega

/-! ## Records -/

/-- Read a record. -/
def readRecord (fields : List (Field σ)) (start : σ) : Reader σ := fun cs =>
  match skipBlanks cs with
  | [] => .error .truncated
  | c :: rest =>
    if c = '[' then readElements true start fields rest
    else if c = '{' then readMembers fields true [] start rest
    else rejectValue (c :: rest)

/-- Read a text that holds one value and blanks around it. -/
def readDocument {α : Type} (r : Reader α) (text : String) : Except Fault α := do
  let (a, rest) ← r text.toList
  if (skipBlanks rest).isEmpty then return a else throw .malformed

end PiecewiseGlyph.Json
