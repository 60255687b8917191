import PiecewiseGlyph.Json.Record
import PiecewiseGlyph.Json.Value

/-!
# Reading values

* `readItems` reads what stands between brackets, given how to read one item;
* `valueReader depth` reads a value that is nested at most `depth` deep;
* `Value.read` reads a whole text.
-/

namespace PiecewiseGlyph.Json

/-! ## Between brackets -/

variable {α : Type}

/-- The items after the first: each follows a comma. -/
def readMoreItems (r : Reader α) (hr : r.NeverGrows) (close : Char) (cs : List Char) :
    Except Fault (List α × List Char) :=
  match _hs : skipBlanks cs with
  | [] => .error .truncated
  | c :: rest =>
    if c = close then .ok ([], rest)
    else if c = ',' then
      match _hi : r rest with
      | .error e => .error e
      | .ok (a, rest) => (readMoreItems r hr close rest).map fun (as, rest) => (a :: as, rest)
    else .error .malformed
  termination_by cs.length
  decreasing_by
    have h₁ := length_skipBlanks_le cs
    have h₂ := hr _ _ _ _hi
    rw [_hs, List.length_cons] at h₁
    omega

/-- The items up to a closing bracket. -/
def readItems (r : Reader α) (hr : r.NeverGrows) (close : Char) : Reader (List α) := fun cs =>
  match skipBlanks cs with
  | [] => .error .truncated
  | c :: rest =>
    if c = close then .ok ([], rest)
    else do
      let (a, rest) ← r (c :: rest)
      let (as, rest) ← readMoreItems r hr close rest
      return (a :: as, rest)

theorem length_of_readMoreItems {r : Reader α} {hr : r.NeverGrows} {close : Char}
    {cs rest : List Char} {as : List α} (h : readMoreItems r hr close cs = .ok (as, rest)) :
    rest.length ≤ cs.length := by
  fun_induction readMoreItems r hr close cs generalizing as with
  | case1 => cases h
  | case2 cs rest' hs =>
    obtain ⟨-, rfl⟩ := Prod.mk.inj (Except.ok.inj h)
    exact Nat.le_of_lt (length_of_skipBlanks hs)
  | case3 => cases h
  | case4 cs rest₁ a rest₂ hi hs _ ih =>
    have h₁ := length_of_skipBlanks hs
    have h₂ := hr _ _ _ hi
    obtain ⟨⟨as', rest₃⟩, hm, h⟩ := map_eq_ok.mp h
    obtain ⟨-, rfl⟩ := Prod.mk.inj h
    have h₃ := ih hm
    omega
  | case5 => cases h

theorem readItems_neverGrows {r : Reader α} (hr : r.NeverGrows) (close : Char) :
    (readItems r hr close).NeverGrows := by
  intro cs as rest h
  unfold readItems at h
  split at h
  · cases h
  · rename_i c cs' hc
    have hb := length_of_skipBlanks hc
    split at h
    · obtain ⟨-, rfl⟩ := Prod.mk.inj (Except.ok.inj h)
      omega
    · obtain ⟨⟨a, rest₁⟩, ha, h⟩ := bind_eq_ok.mp h
      obtain ⟨⟨as', rest₂⟩, hm, h⟩ := bind_eq_ok.mp h
      obtain ⟨-, rfl⟩ := Prod.mk.inj (Except.ok.inj h)
      have h₁ := hr _ _ _ ha
      have h₂ := length_of_readMoreItems hm
      rw [List.length_cons] at h₁
      omega

/-! ## Values -/

/-- A member of an object. -/
def readPair (r : Reader Value) : Reader (String × Value) := fun cs => do
  let (key, rest) ← readKey true (skipBlanks cs)
  let (v, rest) ← r (← readColon rest)
  return ((key, v), rest)

theorem readPair_neverGrows {r : Reader Value} (hr : r.NeverGrows) : (readPair r).NeverGrows := by
  intro cs p rest h
  obtain ⟨⟨key, r₁⟩, hk, h⟩ := bind_eq_ok.mp h
  obtain ⟨r₂, hc, h⟩ := bind_eq_ok.mp h
  obtain ⟨⟨v, r₃⟩, hv, h⟩ := bind_eq_ok.mp h
  obtain ⟨-, rfl⟩ := Prod.mk.inj (Except.ok.inj h)
  have h₀ := length_skipBlanks_le cs
  have h₁ := length_of_readKey hk
  have h₂ := length_of_readColon hc
  have h₃ := hr _ _ _ hv
  omega

/-- A number; a count is told apart. -/
def readNumberValue : Reader Value := fun cs => do
  let (parts, rest) ← scanNumber .truncated cs
  match parts.natural?, parts.value? with
  | some n, _ => return (.natural n, rest)
  | none, some x => return (.real x, rest)
  | none, none => throw .malformed

theorem readNumberValue_neverGrows : readNumberValue.NeverGrows := by
  intro cs v rest h
  obtain ⟨⟨parts, rest'⟩, hs, h⟩ := bind_eq_ok.mp h
  have := length_of_scanNumber hs
  dsimp only at h
  split at h
  · obtain ⟨-, rfl⟩ := Prod.mk.inj (Except.ok.inj h); omega
  · obtain ⟨-, rfl⟩ := Prod.mk.inj (Except.ok.inj h); omega
  · cases h

/-- A word that stands for a value. -/
def readLiteral (word : String) (v : Value) : Reader Value := fun cs =>
  (readWord word.toList cs).map (v, ·)

theorem readLiteral_neverGrows (word : String) (v : Value) : (readLiteral word v).NeverGrows := by
  intro cs v' rest h
  obtain ⟨rest', hw, h⟩ := map_eq_ok.mp h
  obtain ⟨-, rfl⟩ := Prod.mk.inj h
  have := length_of_readWord hw
  omega

/-- The value that begins with a character, given how to read the values in it. -/
def readValueAt (r : Reader Value) (hr : r.NeverGrows) (c : Char) : Reader Value := fun rest =>
  if c = 'n' then readLiteral "ull" .null rest
  else if c = 't' then readLiteral "rue" (.bool true) rest
  else if c = 'f' then readLiteral "alse" (.bool false) rest
  else if c = '"' then (readQuoted rest).map fun (s, rest) => (.string (String.ofList s), rest)
  else if c = '[' then (readItems r hr ']' rest).map fun (vs, rest) => (.array vs, rest)
  else if c = '{' then
    (readItems (readPair r) (readPair_neverGrows hr) '}' rest).map fun (ps, rest) =>
      (.object ps, rest)
  else if startsNumber c then readNumberValue (c :: rest)
  else .error .malformed

theorem length_of_readValueAt {r : Reader Value} {hr : r.NeverGrows} {c : Char}
    {cs rest : List Char} {v : Value} (h : readValueAt r hr c cs = .ok (v, rest)) :
    rest.length ≤ cs.length + 1 := by
  unfold readValueAt at h
  split at h
  · exact Nat.le_succ_of_le (readLiteral_neverGrows _ _ _ _ _ h)
  split at h
  · exact Nat.le_succ_of_le (readLiteral_neverGrows _ _ _ _ _ h)
  split at h
  · exact Nat.le_succ_of_le (readLiteral_neverGrows _ _ _ _ _ h)
  split at h
  · obtain ⟨⟨s, rest'⟩, hq, h⟩ := map_eq_ok.mp h
    have := length_of_readQuoted hq
    obtain ⟨-, rfl⟩ := Prod.mk.inj h
    omega
  split at h
  · obtain ⟨⟨vs, rest'⟩, hi, h⟩ := map_eq_ok.mp h
    obtain ⟨-, rfl⟩ := Prod.mk.inj h
    exact Nat.le_succ_of_le (readItems_neverGrows _ _ _ _ _ hi)
  split at h
  · obtain ⟨⟨ps, rest'⟩, hi, h⟩ := map_eq_ok.mp h
    obtain ⟨-, rfl⟩ := Prod.mk.inj h
    exact Nat.le_succ_of_le (readItems_neverGrows _ _ _ _ _ hi)
  split at h
  · exact readNumberValue_neverGrows _ _ _ h
  · cases h

/-- Read a value whose arrays and objects are nested less than `depth` deep. -/
def valueReader : Nat → { r : Reader Value // r.NeverGrows }
  | 0 => ⟨fun _ => .error .malformed, fun _ _ _ h => by cases h⟩
  | depth + 1 =>
    let inner := valueReader depth
    ⟨fun cs =>
      match skipBlanks cs with
      | [] => .error .truncated
      | c :: rest => readValueAt inner.1 inner.2 c rest, by
      intro cs v rest h
      have hb := length_skipBlanks_le cs
      dsimp only at h
      split at h
      · cases h
      · rename_i c cs' hc
        have := length_of_readValueAt h
        rw [hc, List.length_cons] at hb
        omega⟩

/-- Read a text that holds one value. -/
def Value.read (text : String) : Except Fault Value := readDocument (valueReader 128).1 text

end PiecewiseGlyph.Json
