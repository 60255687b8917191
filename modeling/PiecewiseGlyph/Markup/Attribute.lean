import PiecewiseGlyph.Markup.Item
import PiecewiseGlyph.Text.Utf8

/-!
# Names and attributes

A tag begins with a name. An end tag has to repeat the name of the innermost open element; a
document may end while elements are open. What follows the name of a tag are its attributes: keys,
each with a value in quotes.

* `tagName` and `closingName` are the names of tags, `localName` what follows a first colon;
* `Item.nest` follows the names of the open elements, innermost first;
* `Attribute.read` reads one attribute, and refuses a key that was given before;
* `attributes` lists the attributes of a tag up to the first fault, and that fault.

Positions count the bytes from the start of the tag's content.
-/

namespace PiecewiseGlyph.Markup

/-! ## Names and nesting -/

/-- What follows the first colon of a name, or the name if it has no colon. -/
def localName (name : List Char) : List Char :=
  match (Text.upTo (· == ':') name).2 with
  | _ :: rest => rest
  | [] => name

/-- The name that a tag begins with; it may be empty. -/
def tagName (content : List Char) : List Char := (Text.upTo isSpace content).1

/-- The name in an end tag: space after it does not count, but a name of nothing but space does. -/
def closingName (content : List Char) : List Char :=
  if content.all isSpace then content else (content.reverse.dropWhile isSpace).reverse

namespace Item

/-- The names of the open elements after an item. -/
def nest (names : List (List Char)) : Item → Except Fault (List (List Char))
  | openTag content => .ok (tagName content :: names)
  | closeTag content =>
    let found := closingName content
    match names with
    | [] => .error (.nothingToClose (String.ofList found))
    | name :: names =>
      if found = name then .ok names
      else .error (.closesAnother (String.ofList name) (String.ofList found))
  | _ => .ok names

/-- The content of a tag that opens an element or is a whole one. -/
def tag? : Item → Option (List Char)
  | openTag content => some content
  | emptyTag content => some content
  | _ => none

end Item

/-! ## Attributes -/

/-- A key, and its value as it is written between the quotes. -/
structure Attribute where
  key : List Char
  value : List Char
  deriving DecidableEq, Repr

/-- What is wrong with an attribute, and where. -/
inductive AttributeFault
  /-- A key without an equals sign. -/
  | noEquals (position : Nat)
  /-- Nothing after the equals sign. -/
  | noValue (position : Nat)
  /-- A value that does not begin with a quote. -/
  | noQuote (position : Nat)
  /-- A value that does not end. -/
  | quoteNotClosed (position : Nat) (quote : Char)
  /-- A key given before. -/
  | repeated (position earlier : Nat)
  deriving DecidableEq, Repr

/-- The fault in words. -/
def AttributeFault.message : AttributeFault → String
  | noEquals p =>
    s!"position {p}: attribute key must be directly followed by `=` or space"
  | noValue p => s!"position {p}: `=` must be followed by an attribute value"
  | noQuote p => s!"position {p}: attribute value must be enclosed in `\"` or `'`"
  | quoteNotClosed p quote => s!"position {p}: missing closing quote `{quote}` in attribute value"
  | repeated p earlier =>
    s!"position {p}: duplicated attribute, previous declaration at position {earlier}"

/-- Drop leading space. -/
def skipSpace (cs : List Char) : List Char := cs.dropWhile isSpace

theorem length_skipSpace_le (cs : List Char) : (skipSpace cs).length ≤ cs.length :=
  (List.dropWhile_sublist _).length_le

namespace Attribute

/-- The characters that end a key. -/
def endsKey (c : Char) : Bool := c == '=' || isSpace c

/-- Read a value in quotes. `size` is the size of the whole tag. -/
def readValue (size : Nat) (cs : List Char) : Except AttributeFault (List Char × List Char) :=
  match skipSpace cs with
  | [] => .error (.noValue size)
  | c :: rest =>
    if Item.isQuote c then
      match Text.upTo (· == c) rest with
      | (value, _ :: rest) => .ok (value, rest)
      | (_, []) => .error (.quoteNotClosed size c)
    else .error (.noQuote (size - Text.byteLength (c :: rest)))

theorem length_of_readValue {size : Nat} {cs value rest : List Char}
    (h : readValue size cs = .ok (value, rest)) : rest.length < cs.length := by
  have hs := length_skipSpace_le cs
  unfold readValue at h
  split at h
  · cases h
  · rename_i c cs' hc
    rw [hc, List.length_cons] at hs
    split at h
    · have hu := Text.length_upTo_snd_le (· == c) cs'
      split at h
      · rename_i value' d rest' heq
        obtain ⟨-, rfl⟩ := Prod.mk.inj (Except.ok.inj h)
        rw [heq, List.length_cons] at hu
        omega
      · cases h
    · cases h

/-- Read the attribute that begins with a character. `seen` has the keys given before, with their
positions. -/
def read (size : Nat) (seen : List (List Char × Nat)) (c : Char) (cs : List Char) :
    Except AttributeFault (Attribute × List Char) :=
  let (more, rest) := Text.upTo endsKey cs
  let key := c :: more
  match skipSpace rest with
  | '=' :: rest =>
    match seen.lookup key with
    | some earlier => .error (.repeated (size - Text.byteLength (c :: cs)) earlier)
    | none => (readValue size rest).map fun (value, rest) => (⟨key, value⟩, rest)
  | rest => .error (.noEquals (size - Text.byteLength rest))

theorem length_of_read {size : Nat} {seen : List (List Char × Nat)} {c : Char}
    {cs rest : List Char} {a : Attribute} (h : read size seen c cs = .ok (a, rest)) :
    rest.length < cs.length := by
  have hu := Text.length_upTo_snd_le endsKey cs
  have hs := length_skipSpace_le (Text.upTo endsKey cs).2
  simp only [read] at h
  split at h
  · rename_i rest' hr
    rw [hr, List.length_cons] at hs
    split at h
    · cases h
    · cases hv : readValue size rest' with
      | error e => rw [hv] at h; cases h
      | ok v =>
        obtain ⟨value, after⟩ := v
        have := length_of_readValue hv
        rw [hv] at h
        obtain ⟨-, rfl⟩ := Prod.mk.inj (Except.ok.inj h)
        show after.length < cs.length
        omega
  · cases h

end Attribute

/-- The attributes in the rest of a tag up to the first fault, and that fault. -/
def attributesFrom (size : Nat) (seen : List (List Char × Nat)) (cs : List Char) :
    List Attribute × Option AttributeFault :=
  match _hs : skipSpace cs with
  | [] => ([], none)
  | c :: rest =>
    match _hr : Attribute.read size seen c rest with
    | .error fault => ([], some fault)
    | .ok (a, after) =>
      let position := size - Text.byteLength (c :: rest)
      let (more, fault) := attributesFrom size ((a.key, position) :: seen) after
      (a :: more, fault)
  termination_by cs.length
  decreasing_by
    have h₁ := length_skipSpace_le cs
    have h₂ := Attribute.length_of_read _hr
    rw [_hs, List.length_cons] at h₁
    omega

/-- The attributes of a tag up to the first fault, and that fault. -/
def attributes (content : List Char) : List Attribute × Option AttributeFault :=
  attributesFrom (Text.byteLength content) [] (Text.upTo isSpace content).2

end PiecewiseGlyph.Markup
