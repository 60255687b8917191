import PiecewiseGlyph.Decimal.Layout
import PiecewiseGlyph.Json.Quoted

/-!
# JSON values

* `Value` is a JSON value; an object keeps its members in the order given;
* `Value.compact` writes a value without any space;
* `Value.pretty` writes every element and member on a line of its own, indented by two spaces.
-/

namespace PiecewiseGlyph.Json

/-- A JSON value. -/
inductive Value
  | null
  | bool (b : Bool)
  | natural (n : Nat)
  | real (x : Float)
  | string (s : String)
  | array (elements : List Value)
  | object (members : List (String × Value))

/-- Numbers keep a point, or have a power of ten if very large or small; ties go to even digits. -/
def numberLayout : Layout := ⟨.toEven, fun e => -5 ≤ e && e < 16, ".0", "null", "null"⟩

/-- A number that is not finite is written as null. -/
def writeReal (x : Float) : String := if x.isFinite then numberLayout.write x else "null"

/-- A truth value. -/
def writeBool (b : Bool) : String := if b then "true" else "false"

namespace Value

mutual

/-- A value without spaces. -/
def compact : Value → String
  | null => "null"
  | bool b => writeBool b
  | natural n => n.repr
  | real x => writeReal x
  | string s => quote s
  | array elements => "[" ++ ",".intercalate (compactElements elements) ++ "]"
  | object members => "\x7b" ++ ",".intercalate (compactMembers members) ++ "\x7d"

/-- The elements of an array without spaces. -/
def compactElements : List Value → List String
  | [] => []
  | v :: rest => v.compact :: compactElements rest

/-- The members of an object without spaces. -/
def compactMembers : List (String × Value) → List String
  | [] => []
  | (key, v) :: rest => (quote key ++ ":" ++ v.compact) :: compactMembers rest

end

/-- The start of a line. -/
def indent (depth : Nat) : String := String.ofList ('\n' :: List.replicate (2 * depth) ' ')

/-- Items on lines of their own between brackets; without items nothing stands between them. -/
def enclose (depth : Nat) («open» close : String) (items : List String) : String :=
  if items.isEmpty then «open» ++ close
  else
    «open» ++ indent (depth + 1) ++ ("," ++ indent (depth + 1)).intercalate items ++
      indent depth ++ close

mutual

/-- A value on several lines; the line it starts on has an indentation of `depth`. -/
def prettyAt (depth : Nat) : Value → String
  | null => "null"
  | bool b => writeBool b
  | natural n => n.repr
  | real x => writeReal x
  | string s => quote s
  | array elements => enclose depth "[" "]" (prettyElements (depth + 1) elements)
  | object members => enclose depth "\x7b" "\x7d" (prettyMembers (depth + 1) members)

/-- The elements of an array. -/
def prettyElements (depth : Nat) : List Value → List String
  | [] => []
  | v :: rest => v.prettyAt depth :: prettyElements depth rest

/-- The members of an object. -/
def prettyMembers (depth : Nat) : List (String × Value) → List String
  | [] => []
  | (key, v) :: rest => (quote key ++ ": " ++ v.prettyAt depth) :: prettyMembers depth rest

end

/-- A value on several lines. -/
def pretty (v : Value) : String := v.prettyAt 0

end Value

end PiecewiseGlyph.Json
