import PiecewiseGlyph.Text.Search
import PiecewiseGlyph.Text.Split

/-!
# Items of markup

A document is a row of items: text, tags, comments, and other parts between angle brackets.

* `Item` has one constructor per kind of item, with what stands between its delimiters;
* `Item.write` is the written form, and `Item.read` takes an item off the front of a document;
* `eq_write_of_read`: reading loses nothing, what is left follows the written form of the item.
-/

namespace PiecewiseGlyph.Markup

/-- What makes a document unreadable. -/
inductive Fault
  /-- An exclamation mark that opens nothing. -/
  | unknownMarkup
  | instructionNotClosed
  | commentNotClosed
  | doctypeNotClosed
  | charactersNotClosed
  | tagNotClosed
  | doctypeWithoutName
  /-- An end tag where no element is open. -/
  | nothingToClose (name : String)
  /-- An end tag with a name other than that of the innermost open element. -/
  | closesAnother (expected found : String)
  deriving DecidableEq, Repr

/-- The fault in words. -/
def Fault.message : Fault → String
  | unknownMarkup => "syntax error: unknown or missed symbol in markup"
  | instructionNotClosed =>
    "syntax error: processing instruction or xml declaration not closed: " ++
      "`?>` not found before end of input"
  | commentNotClosed => "syntax error: comment not closed: `-->` not found before end of input"
  | doctypeNotClosed => "syntax error: DOCTYPE not closed: `>` not found before end of input"
  | charactersNotClosed => "syntax error: CDATA not closed: `]]>` not found before end of input"
  | tagNotClosed => "syntax error: tag not closed: `>` not found before end of input"
  | doctypeWithoutName =>
    "ill-formed document: `<!DOCTYPE>` declaration does not contain a name of a document type"
  | nothingToClose name =>
    "ill-formed document: close tag `</" ++ name ++ ">` does not match any open tag"
  | closesAnother expected found =>
    "ill-formed document: expected `</" ++ expected ++ ">`, but `</" ++ found ++ ">` was found"

/-- The white space of markup. -/
def isSpace (c : Char) : Bool := c == ' ' || c == '\r' || c == '\n' || c == '\t'

/-- A part of a document, with what stands between its delimiters. -/
inductive Item
  /-- Characters between tags, at least one. -/
  | text (first : Char) (more : List Char)
  | comment (content : List Char)
  /-- Characters that are taken as they are. -/
  | characters (content : List Char)
  /-- A document type; its keyword may be in either case. -/
  | doctype (keyword content : List Char)
  | instruction (content : List Char)
  /-- A tag that opens an element. -/
  | openTag (content : List Char)
  /-- A tag that closes an element. -/
  | closeTag (content : List Char)
  /-- A tag that is a whole element. -/
  | emptyTag (content : List Char)
  deriving DecidableEq, Repr

namespace Item

/-- The written form. -/
def write : Item → List Char
  | text first more => first :: more
  | comment content => ['<', '!', '-', '-'] ++ (content ++ ['-', '-', '>'])
  | characters content =>
    ['<', '!', '[', 'C', 'D', 'A', 'T', 'A', '['] ++ (content ++ [']', ']', '>'])
  | doctype keyword content => ['<', '!'] ++ (keyword ++ (content ++ ['>']))
  | instruction content => ['<', '?'] ++ (content ++ ['?', '>'])
  | openTag content => '<' :: (content ++ ['>'])
  | closeTag content => ['<', '/'] ++ (content ++ ['>'])
  | emptyTag content => '<' :: (content ++ ['/', '>'])

/-! ## Where an item ends -/

/-- The quotes that hide brackets in a tag. -/
def isQuote (c : Char) : Bool := c == '"' || c == '\x27'

/-- What stands before the bracket that closes a tag, and what follows it. `within` is the quote
that is open at the start. -/
def splitTag? (within : Option Char) : List Char → Option (List Char × List Char)
  | [] => none
  | c :: cs =>
    match within with
    | none =>
      if c = '>' then some ([], cs)
      else (splitTag? (if isQuote c then some c else none) cs).map fun (content, rest) =>
        (c :: content, rest)
    | some q =>
      (splitTag? (if c = q then none else some q) cs).map fun (content, rest) =>
        (c :: content, rest)

theorem eq_of_splitTag? {within : Option Char} {cs content rest : List Char}
    (h : splitTag? within cs = some (content, rest)) : cs = content ++ '>' :: rest := by
  induction cs generalizing within content with
  | nil => simp [splitTag?] at h
  | cons c cs ih =>
    unfold splitTag? at h
    split at h
    · split at h
      · rename_i hc
        obtain ⟨rfl, rfl⟩ := Prod.mk.inj (Option.some.inj h)
        rw [hc, List.nil_append]
      · obtain ⟨⟨content', rest'⟩, hs, h⟩ := Option.map_eq_some_iff.mp h
        obtain ⟨rfl, rfl⟩ := Prod.mk.inj h
        rw [ih hs, List.cons_append]
    · obtain ⟨⟨content', rest'⟩, hs, h⟩ := Option.map_eq_some_iff.mp h
      obtain ⟨rfl, rfl⟩ := Prod.mk.inj h
      rw [ih hs, List.cons_append]

/-- What stands before the bracket that balances `depth` open ones and the first, and what follows
it. -/
def splitBalanced? (depth : Nat) : List Char → Option (List Char × List Char)
  | [] => none
  | c :: cs =>
    if c = '>' ∧ depth = 0 then some ([], cs)
    else
      let depth := if c = '<' then depth + 1 else if c = '>' then depth - 1 else depth
      (splitBalanced? depth cs).map fun (content, rest) => (c :: content, rest)

theorem eq_of_splitBalanced? {depth : Nat} {cs content rest : List Char}
    (h : splitBalanced? depth cs = some (content, rest)) : cs = content ++ '>' :: rest := by
  induction cs generalizing depth content with
  | nil => simp [splitBalanced?] at h
  | cons c cs ih =>
    unfold splitBalanced? at h
    split at h
    · rename_i hc
      obtain ⟨rfl, rfl⟩ := Prod.mk.inj (Option.some.inj h)
      rw [hc.1, List.nil_append]
    · obtain ⟨⟨content', rest'⟩, hs, h⟩ := Option.map_eq_some_iff.mp h
      obtain ⟨rfl, rfl⟩ := Prod.mk.inj h
      rw [ih hs, List.cons_append]

/-! ## Reading -/

/-- Read to the first occurrence of a word. -/
def readTo (word : List Char) (item : List Char → Item) (fault : Fault) (cs : List Char) :
    Except Fault (Item × List Char) :=
  match Text.splitAtWord? word cs with
  | some (content, rest) => .ok (item content, rest)
  | none => .error fault

/-- Whether a word is the keyword of a document type, in either case. -/
def isDoctypeKeyword (word : List Char) : Bool := word.map Char.toLower == "doctype".toList

/-- Read a document type: its keyword has seven letters, and something other than space must
follow. -/
def readDoctype (cs : List Char) : Except Fault (Item × List Char) :=
  match splitBalanced? 0 (cs.drop 7) with
  | some (content, rest) =>
    if !isDoctypeKeyword (cs.take 7) then .error .doctypeNotClosed
    else if content.all isSpace then .error .doctypeWithoutName
    else .ok (doctype (cs.take 7) content, rest)
  | none => .error .doctypeNotClosed

/-- Read what follows an exclamation mark. -/
def readDeclaration : List Char → Except Fault (Item × List Char)
  | '-' :: cs =>
    match Text.dropWord? ['-'] cs with
    | some cs => readTo ['-', '-', '>'] comment .commentNotClosed cs
    | none => .error .commentNotClosed
  | '[' :: cs =>
    match Text.dropWord? ['C', 'D', 'A', 'T', 'A', '['] cs with
    | some cs => readTo [']', ']', '>'] characters .charactersNotClosed cs
    | none => .error .charactersNotClosed
  | c :: cs => if c = 'D' ∨ c = 'd' then readDoctype (c :: cs) else .error .unknownMarkup
  | [] => .error .unknownMarkup

/-- Read what follows a question mark. An instruction is not closed by its first character. -/
def readInstruction (cs : List Char) : Except Fault (Item × List Char) :=
  if cs.head? = some '>' then .error .instructionNotClosed
  else readTo ['?', '>'] instruction .instructionNotClosed cs

/-- Read a tag up to its bracket. -/
def readTag (item : List Char → Item) (cs : List Char) : Except Fault (Item × List Char) :=
  match splitTag? none cs with
  | some (content, rest) => .ok (item content, rest)
  | none => .error .tagNotClosed

/-- The tag with a content: one that ends with a slash is a whole element. -/
def ofTag (content : List Char) : Item :=
  if content.getLast? = some '/' then emptyTag content.dropLast else openTag content

/-- Read what follows a bracket. -/
def readMarkup : List Char → Except Fault (Item × List Char)
  | '!' :: cs => readDeclaration cs
  | '?' :: cs => readInstruction cs
  | '/' :: cs => readTag closeTag cs
  | cs => readTag ofTag cs

/-- Read the item that begins with a character. -/
def read (c : Char) (cs : List Char) : Except Fault (Item × List Char) :=
  if c = '<' then readMarkup cs
  else
    let (more, rest) := Text.upTo (· == '<') cs
    .ok (text c more, rest)

/-! ## Nothing is lost -/

theorem eq_of_readTo {word cs rest : List Char} {item : List Char → Item} {fault : Fault} {i : Item}
    (h : readTo word item fault cs = .ok (i, rest)) :
    ∃ content, i = item content ∧ cs = content ++ (word ++ rest) := by
  unfold readTo at h
  split at h
  · rename_i content rest' hs
    obtain ⟨rfl, rfl⟩ := Prod.mk.inj (Except.ok.inj h)
    exact ⟨content, rfl, Text.eq_of_splitAtWord? hs⟩
  · cases h

theorem eq_of_readTag {cs rest : List Char} {item : List Char → Item} {i : Item}
    (h : readTag item cs = .ok (i, rest)) :
    ∃ content, i = item content ∧ cs = content ++ '>' :: rest := by
  unfold readTag at h
  split at h
  · rename_i content rest' hs
    obtain ⟨rfl, rfl⟩ := Prod.mk.inj (Except.ok.inj h)
    exact ⟨content, rfl, eq_of_splitTag? hs⟩
  · cases h

theorem write_ofTag (content : List Char) : (ofTag content).write = '<' :: (content ++ ['>']) := by
  unfold ofTag
  split
  · rename_i h
    obtain ⟨ys, rfl⟩ := List.getLast?_eq_some_iff.mp h
    simp [write]
  · rfl

theorem eq_write_of_readDoctype {cs rest : List Char} {i : Item}
    (h : readDoctype cs = .ok (i, rest)) : '<' :: '!' :: cs = i.write ++ rest := by
  unfold readDoctype at h
  split at h
  · rename_i content rest' hs
    split at h
    · cases h
    split at h
    · cases h
    obtain ⟨rfl, rfl⟩ := Prod.mk.inj (Except.ok.inj h)
    have := List.take_append_drop 7 cs
    rw [eq_of_splitBalanced? hs] at this
    simpa [write] using this.symm
  · cases h

theorem eq_write_of_readDeclaration {cs rest : List Char} {i : Item}
    (h : readDeclaration cs = .ok (i, rest)) : '<' :: '!' :: cs = i.write ++ rest := by
  unfold readDeclaration at h
  split at h
  · split at h
    · rename_i cs' hd
      obtain ⟨content, rfl, rfl⟩ := eq_of_readTo h
      rw [Text.dropWord?_eq_some_iff.mp hd]
      simp [write]
    · cases h
  · split at h
    · rename_i cs' hd
      obtain ⟨content, rfl, rfl⟩ := eq_of_readTo h
      rw [Text.dropWord?_eq_some_iff.mp hd]
      simp [write]
    · cases h
  · split at h
    · exact eq_write_of_readDoctype h
    · cases h
  · cases h

/-- What is left after reading an item follows its written form. -/
theorem eq_write_of_read {c : Char} {cs rest : List Char} {i : Item}
    (h : read c cs = .ok (i, rest)) : c :: cs = i.write ++ rest := by
  unfold read at h
  split at h
  · rename_i hc
    subst hc
    unfold readMarkup at h
    split at h
    · exact eq_write_of_readDeclaration h
    · unfold readInstruction at h
      split at h
      · cases h
      · obtain ⟨content, rfl, rfl⟩ := eq_of_readTo h
        simp [write]
    · obtain ⟨content, rfl, rfl⟩ := eq_of_readTag h
      simp [write]
    · obtain ⟨content, rfl, rfl⟩ := eq_of_readTag h
      simp [write_ofTag]
  · obtain ⟨rfl, rfl⟩ := Prod.mk.inj (Except.ok.inj h)
    simp [write]

theorem write_ne_nil (i : Item) : i.write ≠ [] := by cases i <;> simp [write]

/-- What is left is shorter than the document. -/
theorem length_of_read {c : Char} {cs rest : List Char} {i : Item}
    (h : read c cs = .ok (i, rest)) : rest.length ≤ cs.length := by
  have hl := congrArg List.length (eq_write_of_read h)
  have hp := List.length_pos_iff.mpr i.write_ne_nil
  rw [List.length_cons, List.length_append] at hl
  omega

end Item

end PiecewiseGlyph.Markup
