import PiecewiseGlyph.Json.Value
import PiecewiseGlyph.Proofs.Json.Reading

/-!
# Reading values back

A value that is written on several lines is read as the value it is, if it is not nested too deep
and its numbers are read as what they are. Natural numbers always are, and so is every text.

* `Value.toList_enclose` is the layout of items between brackets, and `readItems_enclosed` reads it;
* `Value.Legible` says how deep a value is nested, and that its numbers are read back;
* `Value.Legible.reads` is the induction over values, and `Value.read_pretty` the result for whole
  texts.
-/

namespace PiecewiseGlyph.Json

/-! ## The layout -/

namespace Value

theorem isBlank_indent (depth : Nat) : ∀ c ∈ (indent depth).toList, isBlank c = true := by
  intro c hc
  rw [indent, String.toList_ofList, List.mem_cons] at hc
  rcases hc with rfl | hc
  · rfl
  · rw [List.eq_of_mem_replicate hc]
    rfl

/-- What stands after an opening bracket, up to the closing one. -/
def enclosed (depth : Nat) (closing : Char) : List String → List Char
  | [] => [closing]
  | text :: texts =>
    (indent (depth + 1)).toList ++ (text.toList ++
      (moreItems (indent (depth + 1)).toList (texts.map String.toList) ++
        ((indent depth).toList ++ [closing])))

theorem toList_enclose (depth : Nat) (opening closing : Char) {«open» close : String}
    (hopen : «open».toList = [opening]) (hclose : close.toList = [closing]) (texts : List String) :
    (enclose depth «open» close texts).toList = opening :: enclosed depth closing texts := by
  cases texts with
  | nil => simp [enclose, enclosed, hopen, hclose]
  | cons text texts =>
    have hitems : (("," ++ indent (depth + 1)).intercalate (text :: texts)).toList =
        text.toList ++ moreItems (indent (depth + 1)).toList (texts.map String.toList) := by
      rw [String.toList_intercalate, String.toList_append]
      exact intercalate_comma _ _ _
    simp only [enclose, List.isEmpty_cons, Bool.false_eq_true, if_false, String.toList_append,
      hitems, hopen, hclose, enclosed, List.append_assoc, List.cons_append, List.nil_append]

theorem prettyElements_eq_map (depth : Nat) (elements : List Value) :
    prettyElements depth elements = elements.map (prettyAt depth) := by
  induction elements with
  | nil => rfl
  | cons v elements ih => rw [prettyElements, ih, List.map_cons]

/-- A member on one line. -/
def prettyMember (depth : Nat) (member : String × Value) : String :=
  quote member.1 ++ ": " ++ member.2.prettyAt depth

theorem prettyMembers_eq_map (depth : Nat) (members : List (String × Value)) :
    prettyMembers depth members = members.map (prettyMember depth) := by
  induction members with
  | nil => rfl
  | cons member members ih => rw [prettyMembers, ih, List.map_cons, prettyMember]

end Value

/-! ## Texts and keys -/

/-- What stands after an opening quote, up to the closing one. -/
def quoted (s : String) : List Char := s.toList.flatMap escapeChar ++ ['"']

theorem toList_quote (s : String) : (quote s).toList = '"' :: quoted s := by
  simp [quote, quoted]

theorem readQuoted_quoted (s : String) (rest : List Char) :
    readQuoted (quoted s ++ rest) = .ok (s.toList, rest) := by
  rw [quoted, List.append_assoc, List.singleton_append, readQuoted_flatMap_escapeChar]

/-- The key of a first member. -/
theorem readKey_quoted (key : String) (rest : List Char) :
    readKey true ('"' :: (quoted key ++ rest)) = .ok (key, rest) := by
  refine bind_eq_ok.mpr ⟨_, rfl, bind_eq_ok.mpr ⟨_, readQuoted_quoted key rest, ?_⟩⟩
  dsimp only
  rw [String.ofList_toList]
  rfl

/-- The key of a member that follows another one. -/
theorem readKey_comma_quoted {line : List Char} (hline : ∀ c ∈ line, isBlank c = true)
    (key : String) (rest : List Char) :
    readKey false (',' :: (line ++ '"' :: (quoted key ++ rest))) = .ok (key, rest) := by
  have hstart : readMemberStart false (',' :: (line ++ '"' :: (quoted key ++ rest))) =
      readMemberStart true ('"' :: (quoted key ++ rest)) :=
    congrArg (readWord ['"']) (skipBlanks_append_cons hline rfl _)
  rw [readKey, hstart]
  exact readKey_quoted key rest

theorem toList_prettyMember (depth : Nat) (key : String) (v : Value) :
    (Value.prettyMember depth (key, v)).toList =
      '"' :: (quoted key ++ (':' :: ' ' :: (v.prettyAt depth).toList)) := by
  simp [Value.prettyMember, toList_quote]

/-! ## Values -/

/-- The items of an array or an object are read from after the opening bracket. -/
theorem readItems_enclosed {α : Type} {r : Reader α} {hr : r.NeverGrows} {depth : Nat}
    {closing : Char} (hclosing : IsClosing closing) {texts : List String} {as : List α}
    (h : List.Forall₂ (fun text a => r.Reads text.toList a) texts as) (rest : List Char) :
    readItems r hr closing (Value.enclosed depth closing texts ++ rest) = .ok (as, rest) := by
  cases h with
  | nil =>
    rw [Value.enclosed, List.singleton_append, readItems, skipBlanks_cons _ hclosing.isBlank]
    exact if_pos rfl
  | cons htext htexts =>
    simp only [Value.enclosed, List.append_assoc, List.singleton_append]
    exact readItems_moreItems hclosing (Value.isBlank_indent _) (Value.isBlank_indent _) htext
      (List.forall₂_map_left_iff.mpr htexts) rest

/-- A member is read as its key and its value. -/
theorem Reader.Reads.readPair {r : Reader Value} {depth : Nat} {key : String} {v : Value}
    (h : r.Reads (v.prettyAt depth).toList v) :
    (readPair r).Reads (Value.prettyMember depth (key, v)).toList (key, v) := by
  have hskips : (Json.readPair r).SkipsBlanks := fun cs => by
    simp only [Json.readPair, skipBlanks_skipBlanks]
  refine hskips.reads (toList_prettyMember depth key v) rfl fun rest hrest => ?_
  rw [List.append_assoc, Json.readPair, skipBlanks_cons _ rfl]
  refine bind_eq_ok.mpr ⟨_, readKey_quoted key _, bind_eq_ok.mpr ⟨_, rfl, ?_⟩⟩
  exact bind_eq_ok.mpr ⟨_, h.reads [' '] rest (by simp [isBlank]) hrest, rfl⟩

theorem valueReader_succ (depth : Nat) (cs : List Char) :
    (valueReader (depth + 1)).1 cs =
      match skipBlanks cs with
      | [] => .error .truncated
      | c :: rest => readValueAt (valueReader depth).1 (valueReader depth).2 c rest := rfl

/-- The first character tells which kind of value is read. -/
theorem valueReader_reads {depth : Nat} {text : List Char} {v : Value} {c : Char}
    {tail : List Char} (htext : text = c :: tail) (hc : isOuter c = false)
    (h : ∀ rest, EndsValue rest →
      readValueAt (valueReader depth).1 (valueReader depth).2 c (tail ++ rest) = .ok (v, rest)) :
    (valueReader (depth + 1)).1.Reads text v := by
  have hskips : (valueReader (depth + 1)).1.SkipsBlanks := fun cs => by
    rw [valueReader_succ, valueReader_succ, skipBlanks_skipBlanks]
  refine hskips.reads htext hc fun rest hrest => ?_
  rw [valueReader_succ, skipBlanks_cons _ (isBlank_of_isOuter hc)]
  exact h rest hrest

theorem isOuter_of_startsNumber {c : Char} (h : startsNumber c = true) : isOuter c = false := by
  rw [startsNumber, Bool.or_eq_true, beq_iff_eq] at h
  rcases h with rfl | h
  · rfl
  · exact isOuter_of_isDigit h

theorem valueReader_reads_number {depth : Nat} {text : List Char} {v : Value}
    (h : readNumberValue text = .ok (v, [])) : (valueReader (depth + 1)).1.Reads text v := by
  obtain ⟨parts, hparts, -⟩ := bind_eq_ok.mp h
  obtain ⟨c, tail, htext, hc⟩ := exists_startsNumber hparts
  refine valueReader_reads htext (isOuter_of_startsNumber hc) fun rest hrest => ?_
  have hne : ∀ d, startsNumber d = false → c ≠ d := by
    rintro d hd rfl
    cases hc.symm.trans hd
  rw [readValueAt, if_neg (hne _ rfl), if_neg (hne _ rfl), if_neg (hne _ rfl), if_neg (hne _ rfl),
    if_neg (hne _ rfl), if_neg (hne _ rfl), if_pos hc, ← List.cons_append, ← htext]
  exact readNumberValue_isLocal _ _ _ _ h hrest

/-- A value whose arrays and objects are nested less than `depth` deep, and whose numbers are read
as what they are. -/
inductive Value.Legible : Nat → Value → Prop
  | null {depth : Nat} : Legible (depth + 1) .null
  | bool {depth : Nat} (b : Bool) : Legible (depth + 1) (.bool b)
  | natural {depth : Nat} (n : Nat) : Legible (depth + 1) (.natural n)
  | real {depth : Nat} {x : Float} (h : readNumberValue (writeReal x).toList = .ok (.real x, [])) :
      Legible (depth + 1) (.real x)
  | string {depth : Nat} (s : String) : Legible (depth + 1) (.string s)
  | array {depth : Nat} {elements : List Value} (h : ∀ v ∈ elements, Legible depth v) :
      Legible (depth + 1) (.array elements)
  | object {depth : Nat} {members : List (String × Value)}
      (h : ∀ member ∈ members, Legible depth member.2) : Legible (depth + 1) (.object members)

/-- A value is read from what is written of it, at any indentation. -/
theorem Value.Legible.reads {limit : Nat} {v : Value} (h : v.Legible limit) (depth : Nat) :
    (valueReader limit).1.Reads (v.prettyAt depth).toList v := by
  induction h generalizing depth with
  | null =>
    exact valueReader_reads (show "null".toList = 'n' :: "ull".toList from rfl) rfl fun _ _ => rfl
  | bool b =>
    cases b with
    | true =>
      exact valueReader_reads (show "true".toList = 't' :: "rue".toList from rfl) rfl fun _ _ => rfl
    | false =>
      exact valueReader_reads (show "false".toList = 'f' :: "alse".toList from rfl) rfl
        fun _ _ => rfl
  | natural n => exact valueReader_reads_number (readNumberValue_repr n)
  | real h => exact valueReader_reads_number h
  | string s =>
    refine valueReader_reads (toList_quote s) rfl fun rest _ => ?_
    refine map_eq_ok.mpr ⟨_, readQuoted_quoted s rest, ?_⟩
    dsimp only
    rw [String.ofList_toList]
  | @array limit elements _ ih =>
    have helements : List.Forall₂
        (fun (text : String) v => (valueReader limit).1.Reads text.toList v)
        (prettyElements (depth + 1) elements) elements := by
      rw [prettyElements_eq_map, List.forall₂_map_left_iff, List.forall₂_same]
      exact fun v hv => ih v hv (depth + 1)
    exact valueReader_reads (toList_enclose depth '[' ']' rfl rfl _) rfl fun rest _ =>
      map_eq_ok.mpr ⟨_, readItems_enclosed (.inl rfl) helements rest, rfl⟩
  | @object limit members _ ih =>
    have hmembers : List.Forall₂
        (fun (text : String) member => (readPair (valueReader limit).1).Reads text.toList member)
        (prettyMembers (depth + 1) members) members := by
      rw [prettyMembers_eq_map, List.forall₂_map_left_iff, List.forall₂_same]
      exact fun member hmember => .readPair (ih member hmember (depth + 1))
    exact valueReader_reads (toList_enclose depth '\x7b' '\x7d' rfl rfl _) rfl fun rest _ =>
      map_eq_ok.mpr ⟨_, readItems_enclosed (.inr rfl) hmembers rest, rfl⟩

theorem readDocument_eq_ok {α : Type} {r : Reader α} {text : String} {a : α}
    (h : r.Reads text.toList a) : readDocument r text = .ok a := by
  have hread := h.reads [] [] nofun endsValue_nil
  rw [List.nil_append, List.append_nil] at hread
  exact bind_eq_ok.mpr ⟨_, hread, rfl⟩

/-- A value that is not nested too deep is read back from its text. -/
theorem Value.read_pretty {v : Value} (h : v.Legible 128) : Value.read v.pretty = .ok v :=
  readDocument_eq_ok (h.reads 0)

end PiecewiseGlyph.Json
