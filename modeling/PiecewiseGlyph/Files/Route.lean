import PiecewiseGlyph.Text.Split

/-!
# File names

A file is named by the steps that lead to it, separated by slashes.

* `Route.ofName` takes a name apart;
* `Route.parts` are the steps that matter, and `Route.fileName?` and `Route.extension?` parts of the
  last one;
* `joinName` puts a name below a directory (`Route.ofName_joinName`, `Route.parts_joinName`),
  `quoteName` writes a name for a message.
-/

namespace PiecewiseGlyph

/-- The way that a name describes. -/
structure Route where
  /-- The way begins at the root. -/
  absolute : Bool
  steps : List String
  /-- A slash ends the name, so that only a directory can be meant. -/
  slash : Bool
  deriving DecidableEq, Repr

namespace Route

/-- Whether a character separates steps. -/
def isSlash (c : Char) : Bool := c == '/'

/-- The way of a name. -/
def ofName (name : String) : Route :=
  let cs := name.toList
  { absolute := cs.head? == some '/'
    steps := (Text.pieces isSlash cs).map String.ofList
    slash := cs.getLast? == some '/' }

/-- The steps without those that stay where they are; such a step counts only at the start of a
relative way. -/
def parts (r : Route) : List String :=
  (if !r.absolute && r.steps.head? == some "." then ["."] else []) ++ r.steps.filter (· != ".")

/-- The name in the last step, if that step goes down. -/
def fileName? (r : Route) : Option String :=
  match r.parts.getLast? with
  | some last => if last == "." || last == ".." then none else some last
  | none => none

/-- What follows the last dot of the name, unless that dot begins the name. -/
def extension? (r : Route) : Option String :=
  match r.fileName? with
  | some name =>
    match Text.upTo (· == '.') name.toList.reverse with
    | (after, _ :: before) => if before.isEmpty then none else some (String.ofList after.reverse)
    | (_, []) => none
  | none => none

end Route

/-- A name below a directory. -/
def joinName (directory name : String) : String :=
  if directory.toList.getLast? == some '/' || directory.isEmpty then directory ++ name
  else directory ++ "/" ++ name

/-- How a character is written between quotes. -/
def quoteNameChar (c : Char) : String :=
  if c == '"' then "\\\""
  else if c == '\\' then "\\\\"
  else if c == '\n' then "\\n"
  else if c == '\r' then "\\r"
  else if c == '\t' then "\\t"
  else if c == '\x00' then "\\0"
  else if c.toNat < 0x20 || (0x7F ≤ c.toNat && c.toNat < 0xA0) then
    "\\u\x7b" ++ String.ofList (Nat.toDigits 16 c.toNat) ++ "\x7d"
  else c.toString

/-- A name in quotes. -/
def quoteName (name : String) : String :=
  "\"" ++ String.join (name.toList.map quoteNameChar) ++ "\""

/-! ## Names below a directory -/

/-- A name is set off from its directory by a slash. -/
theorem exists_toList_joinName {directory : String} (h : directory ≠ "") (s : String) :
    ∃ cs, (joinName directory s).toList = cs ++ '/' :: s.toList ∧
      Text.pieces Route.isSlash cs = Text.pieces Route.isSlash directory.toList ∧
      (cs ++ '/' :: s.toList).head? = directory.toList.head? := by
  have hempty : directory.isEmpty = false := by simpa using h
  by_cases hlast : directory.toList.getLast? = some '/'
  · obtain ⟨cs, hcs⟩ := List.getLast?_eq_some_iff.mp hlast
    refine ⟨cs, ?_, ?_, ?_⟩
    · rw [joinName, if_pos (by simp [hlast]), String.toList_append, hcs, List.append_assoc]
      rfl
    · rw [hcs, Text.pieces_append_cons (by rfl), Text.pieces, List.append_nil]
    · rw [hcs]
      cases cs <;> rfl
  · refine ⟨directory.toList, ?_, rfl, ?_⟩
    · rw [joinName, if_neg (by simp [hlast, hempty]), String.toList_append, String.toList_append,
        List.append_assoc]
      rfl
    · have hne : directory.toList ≠ [] := by rwa [ne_eq, String.toList_eq_nil_iff]
      rw [List.head?_append, List.head?_eq_some_head hne, Option.some_or]

namespace Route

/-- A name that a directory can have for what is in it. -/
structure IsName (s : String) : Prop where
  ne_empty : s ≠ ""
  noSlash : '/' ∉ s.toList
  ne_dot : s ≠ "."
  ne_dots : s ≠ ".."

/-- The way to a name below a directory is the way to the directory and one step more. -/
theorem ofName_joinName (directory : String) {s : String} (hs : IsName s) :
    ofName (joinName directory s) =
      { absolute := (ofName directory).absolute
        steps := (ofName directory).steps ++ [s]
        slash := false } := by
  have hne : s.toList ≠ [] := by
    rw [ne_eq, String.toList_eq_nil_iff]
    exact hs.ne_empty
  have hpieces : Text.pieces isSlash s.toList = [s.toList] := by
    refine Text.pieces_eq_singleton hne fun c hc => beq_false_of_ne ?_
    rintro rfl
    exact hs.noSlash hc
  have hlast : (s.toList.getLast? == some '/') = false :=
    beq_false_of_ne fun h => hs.noSlash (List.mem_of_getLast? h)
  have hhead : (s.toList.head? == some '/') = false :=
    beq_false_of_ne fun h => hs.noSlash (List.mem_of_head? h)
  by_cases hdirectory : directory = ""
  · subst hdirectory
    have hjoin : joinName "" s = s := String.empty_append
    simp only [hjoin, ofName, hpieces, hlast, hhead]
    simp [Text.pieces]
  · obtain ⟨cs, hjoin, hdirs, hstart⟩ := exists_toList_joinName hdirectory s
    have hend : (cs ++ '/' :: s.toList).getLast? = s.toList.getLast? := by
      rw [List.getLast?_append, List.getLast?_cons_of_ne_nil hne, List.getLast?_eq_some_getLast hne,
        Option.some_or]
    have hslashed : isSlash '/' = true := rfl
    simp only [ofName, hjoin, hstart, hend, hlast, Text.pieces_append_cons hslashed, hdirs, hpieces,
      List.map_append, List.map_singleton, String.ofList_toList]

theorem parts_joinName (directory : String) {s : String} (hs : IsName s) :
    (ofName (joinName directory s)).parts = (ofName directory).parts ++ [s] := by
  have hfilter : [s].filter (· != ".") = [s] := by simp [hs.ne_dot]
  have hstart : (((ofName directory).steps ++ [s]).head? == some ".") =
      ((ofName directory).steps.head? == some ".") := by
    cases (ofName directory).steps with
    | nil => simp [hs.ne_dot]
    | cons x xs => rfl
  rw [ofName_joinName directory hs, parts, parts, List.filter_append, hfilter, hstart,
    List.append_assoc]

end Route

end PiecewiseGlyph
