import PiecewiseGlyph.Proofs.Formula.Decoding

/-!
# Balanced formulas

A formula is typeset by what its backslashes, letters and braces say. Two kinds of brackets have to
match: braces, which make groups, and the words `left` and `right` behind a backslash. A brace
behind a backslash is none.

* `lexemes?` reads a text as words, signs and characters, and `Reads` says that a text is read by
  itself, whatever follows;
* `nest` opens and closes brackets, `Balanced` says that all match, and `closeGroup?` finds the end
  of a group: it is where the brackets of the group match (`closeGroup?_append`);
* `Passes` is what a text does to the brackets that are open. Concrete texts are run
  (`Passes.of_pass?`), numbers and labels change nothing (`passes_formulaNumber`, `passes_escape`),
  and neither does the body of a function (`passes_outline`);
* `Formula.isNested_latex`: a formula is balanced if the names of the helper functions are, and its
  label stays within its subscript.
-/

namespace PiecewiseGlyph.Latex

/-! ## Lexemes -/

/-- What a typeset text consists of. Letters are those of ASCII. -/
inductive Lexeme
  /-- A backslash and letters, as many as there are. -/
  | word (letters : List Char)
  /-- A backslash and one other character. -/
  | sign (c : Char)
  /-- A character by itself. -/
  | char (c : Char)
  deriving DecidableEq, Repr

/-- Letters that follow a word would belong to it. -/
def Lexeme.isWord : Lexeme → Bool
  | word _ => true
  | _ => false

/-- The lexemes of a text. A backslash at the end is none. -/
def lexemes? : List Char → Option (List Lexeme)
  | [] => some []
  | ['\\'] => none
  | '\\' :: c :: cs =>
    if c.isAlpha then
      let span := Text.upTo (! Char.isAlpha ·) cs
      (lexemes? span.2).map (.word (c :: span.1) :: ·)
    else (lexemes? cs).map (.sign c :: ·)
  | c :: cs => (lexemes? cs).map (.char c :: ·)
  termination_by cs => cs.length
  decreasing_by
    · have := Text.length_upTo_snd_le (! Char.isAlpha ·) cs
      simp only [List.length_cons]; omega
    · simp only [List.length_cons]; omega
    · simp only [List.length_cons]; omega

theorem lexemes?_char {c : Char} (hc : c ≠ '\\') (cs : List Char) :
    lexemes? (c :: cs) = (lexemes? cs).map (.char c :: ·) := by
  rw [lexemes?]
  · exact fun h => absurd h hc
  · exact fun d ds h => absurd h hc

/-- Only letters that follow can change how a text is read, and only if a word ends it. -/
theorem lexemes?_append {text rest : List Char} {ls : List Lexeme} (h : lexemes? text = some ls)
    (hrest : ∀ x ∈ ls.getLast?, x.isWord = true → ∀ c ∈ rest.head?, c.isAlpha = false) :
    lexemes? (text ++ rest) = (lexemes? rest).map (ls ++ ·) := by
  fun_induction lexemes? text generalizing ls with
  | case1 =>
    cases h
    simp
  | case2 => cases h
  | case3 c cs halpha span =>
    rename_i ih
    obtain ⟨more, hmore, rfl⟩ := Option.map_eq_some_iff.mp h
    -- the word ends where it ended before: before its rest, or before what follows
    have hcut : Text.upTo (! Char.isAlpha ·) (cs ++ rest) = (span.1, span.2 ++ rest) := by
      rw [← Text.upTo_fst_append_snd (! Char.isAlpha ·) cs, List.append_assoc]
      refine Text.upTo_append (fun x => Text.of_mem_upTo_fst) fun x hx => ?_
      rcases hspan : span.2 with _ | ⟨y, ys⟩
      · rw [hspan, lexemes?] at hmore
        cases hmore
        rw [hspan, List.nil_append] at hx
        rw [hrest _ rfl rfl x hx]
        rfl
      · rw [hspan] at hx
        cases hx
        exact Text.of_upTo_snd_cons (p := (! Char.isAlpha ·)) hspan
    have ih := ih hmore fun x hx => hrest x (List.mem_getLast?_cons hx)
    rw [List.cons_append, List.cons_append, lexemes?, if_pos halpha, hcut]
    dsimp only
    rw [ih, Option.map_map]
    rfl
  | case4 c cs halpha ih =>
    obtain ⟨more, hmore, rfl⟩ := Option.map_eq_some_iff.mp h
    have ih := ih hmore fun x hx => hrest x (List.mem_getLast?_cons hx)
    rw [List.cons_append, List.cons_append, lexemes?, if_neg halpha, ih, Option.map_map]
    rfl
  | case5 c cs hlone hpair ih =>
    obtain ⟨more, hmore, rfl⟩ := Option.map_eq_some_iff.mp h
    have ih := ih hmore fun x hx => hrest x (List.mem_getLast?_cons hx)
    have hc : c ≠ '\\' := by
      rintro rfl
      cases cs with
      | nil => exact hlone rfl rfl
      | cons d ds => exact hpair d ds rfl rfl
    rw [List.cons_append, lexemes?_char hc, ih, Option.map_map]
    rfl

/-! ## Brackets -/

/-- The kinds of brackets. -/
inductive Bracket
  | brace
  | fence
  deriving DecidableEq, Repr

/-- How a bracket is opened. -/
def Bracket.opening : Bracket → Lexeme
  | brace => .char '\x7b'
  | fence => .word "left".toList

/-- How a bracket is closed. -/
def Bracket.closing : Bracket → Lexeme
  | brace => .char '\x7d'
  | fence => .word "right".toList

/-- All kinds of brackets. -/
def Bracket.all : List Bracket := [brace, fence]

/-- Close a bracket that has to be the innermost one. -/
def Bracket.close (b : Bracket) (stack : List Bracket) : Option (List Bracket) :=
  if stack.head? = some b then some stack.tail else none

/-- The brackets that are open after a lexeme, the innermost first. -/
def Lexeme.nest (stack : List Bracket) (x : Lexeme) : Option (List Bracket) :=
  match Bracket.all.find? (·.opening = x), Bracket.all.find? (·.closing = x) with
  | some b, _ => some (b :: stack)
  | none, some b => b.close stack
  | none, none => some stack

/-- The brackets that are open after lexemes, unless one was closed that was not open innermost. -/
def nest (stack : List Bracket) (ls : List Lexeme) : Option (List Bracket) :=
  ls.foldlM Lexeme.nest stack

theorem nest_append (stack : List Bracket) (xs ys : List Lexeme) :
    nest stack (xs ++ ys) = (nest stack xs).bind (nest · ys) :=
  List.foldlM_append

/-- Every bracket that is opened is closed, and none else. -/
def Balanced (ls : List Lexeme) : Prop := nest [] ls = some []

instance (ls : List Lexeme) : Decidable (Balanced ls) := inferInstanceAs (Decidable (_ = _))

/-- Brackets that are open around lexemes do not matter. -/
theorem Bracket.close_append {b : Bracket} {stack stack' : List Bracket}
    (h : b.close stack = some stack') (below : List Bracket) :
    b.close (stack ++ below) = some (stack' ++ below) := by
  cases stack with
  | nil => cases h
  | cons b' stack =>
    rw [close] at h
    split at h
    · rename_i hhead
      cases h
      exact if_pos hhead
    · cases h

theorem Lexeme.nest_append {x : Lexeme} {stack stack' : List Bracket}
    (h : x.nest stack = some stack') (below : List Bracket) :
    x.nest (stack ++ below) = some (stack' ++ below) := by
  unfold nest at h ⊢
  cases hopening : Bracket.all.find? (·.opening = x) with
  | some b =>
    rw [hopening] at h
    cases h
    rfl
  | none =>
    rw [hopening] at h
    cases hclosing : Bracket.all.find? (·.closing = x) with
    | some b =>
      rw [hclosing] at h
      exact Bracket.close_append h below
    | none =>
      rw [hclosing] at h
      cases h
      rfl

theorem nest_below {ls : List Lexeme} {stack stack' : List Bracket}
    (h : nest stack ls = some stack') (below : List Bracket) :
    nest (stack ++ below) ls = some (stack' ++ below) := by
  induction ls generalizing stack with
  | nil =>
    cases h
    rfl
  | cons x xs ih =>
    obtain ⟨open₁, hx, hxs⟩ := Option.bind_eq_some_iff.mp h
    exact Option.bind_eq_some_iff.mpr ⟨_, x.nest_append hx below, ih hxs⟩

/-- What is balanced leaves open what was open. -/
theorem Balanced.nest_eq {ls : List Lexeme} (h : Balanced ls) (stack : List Bracket) :
    nest stack ls = some stack :=
  nest_below h stack

/-- The lexemes up to the one that closes the outermost bracket, and what follows it. -/
def closeGroup? (stack : List Bracket) : List Lexeme → Option (List Lexeme × List Lexeme)
  | [] => none
  | x :: xs =>
    match x.nest stack with
    | none => none
    | some [] => some ([], xs)
    | some (b :: stack) => (closeGroup? (b :: stack) xs).map fun (group, rest) => (x :: group, rest)

/-- A group ends where its brackets match, and no sooner. -/
theorem closeGroup?_append {ls : List Lexeme} {stack : List Bracket} (h : nest stack ls = some [])
    (b : Bracket) (rest : List Lexeme) :
    closeGroup? (stack ++ [b]) (ls ++ b.closing :: rest) = some (ls, rest) := by
  induction ls generalizing stack with
  | nil =>
    cases h
    cases b <;> rfl
  | cons x xs ih =>
    obtain ⟨stack₁, hx, hxs⟩ := Option.bind_eq_some_iff.mp h
    obtain ⟨c, cs, hcons⟩ : ∃ c cs, stack₁ ++ [b] = c :: cs :=
      List.exists_cons_of_ne_nil (by simp)
    have ih := ih hxs
    rw [hcons] at ih
    rw [List.cons_append, closeGroup?, x.nest_append hx [b], hcons]
    dsimp only
    rw [ih]
    rfl

/-! ## What texts do to brackets -/

/-- A text is read as lexemes, whatever follows. -/
def Reads (text : List Char) (ls : List Lexeme) : Prop :=
  ∀ rest, lexemes? (text ++ rest) = (lexemes? rest).map (ls ++ ·)

theorem Reads.nil : Reads [] [] := fun rest => by simp

theorem Reads.append {text text' : List Char} {ls ls' : List Lexeme} (h : Reads text ls)
    (h' : Reads text' ls') : Reads (text ++ text') (ls ++ ls') := fun rest => by
  rw [List.append_assoc, h, h', Option.map_map]
  simp only [Function.comp_def, List.append_assoc]

theorem Reads.lexemes?_eq {text : List Char} {ls : List Lexeme} (h : Reads text ls) :
    lexemes? text = some ls := by
  have h := h []
  rwa [List.append_nil, lexemes?, Option.map_some, List.append_nil] at h

/-- After a text some brackets are open, whatever follows. -/
def Passes (text : String) (stack stack' : List Bracket) : Prop :=
  ∃ ls, Reads text.toList ls ∧ nest stack ls = some stack'

section

variable {s t : String} {stack stack' stack'' : List Bracket}

theorem Passes.append (hs : Passes s stack stack') (ht : Passes t stack' stack'') :
    Passes (s ++ t) stack stack'' := by
  obtain ⟨xs, hxs, hs⟩ := hs
  obtain ⟨ys, hys, ht⟩ := ht
  refine ⟨xs ++ ys, String.toList_append ▸ hxs.append hys, ?_⟩
  rw [nest_append, hs, Option.bind_some, ht]

/-- The brackets that are open after a text, if no word ends it. -/
def pass? (stack : List Bracket) (text : String) : Option (List Bracket) :=
  (lexemes? text.toList).bind fun ls =>
    if ls.getLast?.any Lexeme.isWord then none else nest stack ls

/-- What a text does by itself, it does wherever it stands. -/
theorem Passes.of_pass? (h : pass? stack s = some stack') (below : List Bracket) :
    Passes s (stack ++ below) (stack' ++ below) := by
  obtain ⟨ls, hread, h⟩ := Option.bind_eq_some_iff.mp h
  split at h
  · cases h
  · rename_i hlast
    refine ⟨ls, fun rest => lexemes?_append hread fun x hx hword => ?_, nest_below h below⟩
    exact absurd ((Option.any_eq_true _ _).mpr ⟨x, hx, hword⟩) hlast

/-- A character that is part of no command and no group. -/
def isPlain (c : Char) : Bool := c != '\\' && c != '\x7b' && c != '\x7d'

theorem isPlain_of_isAlphanum {c : Char} (hc : c.isAlphanum = true) : isPlain c = true := by
  rw [isPlain, Bool.and_eq_true, Bool.and_eq_true, bne_iff_ne, bne_iff_ne, bne_iff_ne]
  refine ⟨⟨?_, ?_⟩, ?_⟩ <;>
    · rintro rfl
      exact absurd hc (by decide)

/-- Without backslashes, a text consists of characters. -/
theorem reads_chars {cs : List Char} (hcs : '\\' ∉ cs) : Reads cs (cs.map .char) := by
  induction cs with
  | nil => exact Reads.nil
  | cons c cs ih =>
    rw [List.mem_cons, not_or] at hcs
    obtain ⟨hc, hcs⟩ := hcs
    intro rest
    rw [List.cons_append, lexemes?_char (Ne.symm hc), ih hcs, Option.map_map]
    rfl

theorem nest_plain {cs : List Char} (hcs : ∀ c ∈ cs, isPlain c = true) (stack : List Bracket) :
    nest stack (cs.map .char) = some stack := by
  induction cs with
  | nil => rfl
  | cons c cs ih =>
    have hc := hcs c List.mem_cons_self
    simp only [isPlain, Bool.and_eq_true, bne_iff_ne] at hc
    have hchar : (Lexeme.char c).nest stack = some stack := by
      simp [Lexeme.nest, Bracket.all, Bracket.opening, Bracket.closing, Ne.symm hc.1.2,
        Ne.symm hc.2]
    exact Option.bind_eq_some_iff.mpr
      ⟨stack, hchar, ih fun d hd => hcs d (List.mem_cons_of_mem c hd)⟩

theorem passes_plain (hs : ∀ c ∈ s.toList, isPlain c = true) (stack : List Bracket) :
    Passes s stack stack :=
  ⟨_, reads_chars fun h => absurd (hs _ h) (by decide), nest_plain hs stack⟩

theorem passes_repr (n : Nat) (stack : List Bracket) : Passes n.repr stack stack :=
  passes_plain (fun _ hc => isPlain_of_isAlphanum
    (Bool.or_eq_true_iff.mpr (.inr (Numeral.isDigit_of_mem_repr hc)))) stack

theorem passes_intercalate {separator : String} {texts : List String}
    (hseparator : Passes separator stack stack) (htexts : ∀ t ∈ texts, Passes t stack stack) :
    Passes (separator.intercalate texts) stack stack := by
  induction texts with
  | nil => exact ⟨[], Reads.nil, rfl⟩
  | cons t texts ih =>
    have ht := htexts t List.mem_cons_self
    have ih := ih fun t' h => htexts t' (List.mem_cons_of_mem t h)
    cases texts with
    | nil => rwa [String.intercalate_singleton]
    | cons t' texts =>
      rw [String.intercalate_cons_of_ne_nil (by simp)]
      exact (ht.append hseparator).append ih

end

/-! ## Labels -/

theorem passes_escapeChar (c : Char) (stack : List Bracket) :
    Passes (String.ofList (Label.escapeChar c)) stack stack := by
  have hcommand : ∀ {text : String}, pass? [] text = some [] → Passes text stack stack :=
    fun h => Passes.of_pass? h stack
  unfold Label.escapeChar
  split
  · rename_i hc
    have hsigns : "\x7b\x7d_%#&$".toList.all
        (fun c => decide (pass? [] (String.ofList ['\\', c]) = some [])) = true := by
      decide +kernel
    exact hcommand (of_decide_eq_true (List.all_eq_true.mp hsigns c (List.contains_iff_mem.mp hc)))
  · rename_i hsign
    split
    · exact hcommand (by decide +kernel)
    · rename_i hbackslash
      split
      · exact hcommand (by decide +kernel)
      · split
        · exact hcommand (by decide +kernel)
        · refine passes_plain (fun d hd => ?_) stack
          rw [String.toList_ofList, List.mem_singleton] at hd
          subst hd
          simp only [isPlain, Bool.and_eq_true, bne_iff_ne]
          refine ⟨⟨hbackslash, ?_⟩, ?_⟩ <;>
            · rintro rfl
              exact hsign (by decide)

/-- A label changes no brackets, whatever it is. -/
theorem passes_escape (label : String) (stack : List Bracket) :
    Passes (Label.escape label) stack stack := by
  rw [Label.escape]
  induction label.toList with
  | nil => exact ⟨[], Reads.nil, rfl⟩
  | cons c cs ih =>
    rw [List.flatMap_cons, String.ofList_append]
    exact (passes_escapeChar c stack).append ih

/-! ## Clauses -/

theorem passes_formulaNumber (x : Float) (stack : List Bracket) :
    Passes (formulaNumber x) stack stack := by
  refine passes_plain (fun c hc => ?_) stack
  have hc := List.all_eq_true.mp (Reading.all_formulaNumber x) c hc
  simp only [isPlain, Bool.and_eq_true, bne_iff_ne]
  refine ⟨⟨?_, ?_⟩, ?_⟩ <;>
    · rintro rfl
      exact absurd hc (by decide)

/-- Texts that stand between others. -/
theorem passes_comma (stack : List Bracket) : Passes ",\\ " stack stack :=
  Passes.of_pass? (by decide +kernel : pass? [] ",\\ " = some []) stack

theorem passes_left (stack : List Bracket) : Passes "\\left(" stack (.fence :: stack) :=
  Passes.of_pass? (by decide +kernel : pass? [] "\\left(" = some [.fence]) stack

theorem passes_right (stack : List Bracket) : Passes "\\right)" (.fence :: stack) stack :=
  Passes.of_pass? (by decide +kernel : pass? [.fence] "\\right)" = some []) stack

theorem passes_latex_point (p : Point Float) (stack : List Bracket) :
    Passes (p.latex formulaNumber) stack stack :=
  ((((passes_left stack).append (passes_formulaNumber p.x _)).append (passes_comma _)).append
    (passes_formulaNumber p.y _)).append (passes_right stack)

theorem passes_latex_parameter (u : LocalParameter) (stack : List Bracket) :
    Passes u.latex stack stack := by
  have ht : Passes "t" stack stack :=
    Passes.of_pass? (by decide +kernel : pass? [] "t" = some []) stack
  have hminus : Passes "-" stack stack :=
    Passes.of_pass? (by decide +kernel : pass? [] "-" = some []) stack
  refine ((passes_repr u.factor stack).append ht).append ?_
  split
  · exact ⟨[], Reads.nil, rfl⟩
  · exact hminus.append (passes_repr u.shift stack)

theorem passes_factorLatex (u : LocalParameter) (stack : List Bracket) :
    Passes u.factorLatex stack stack := by
  rw [LocalParameter.factorLatex]
  split
  · exact passes_latex_parameter u stack
  · exact ((passes_left stack).append (passes_latex_parameter u _)).append (passes_right stack)

theorem passes_condition (clause : Clause Float) (stack : List Bracket) :
    Passes clause.condition stack stack := by
  have hopen : Passes "t<\\frac\x7b" stack (.brace :: stack) :=
    Passes.of_pass? (by decide +kernel : pass? [] "t<\\frac\x7b" = some [.brace]) stack
  have hover : Passes "\x7d\x7b" (.brace :: stack) (.brace :: stack) :=
    Passes.of_pass? (by decide +kernel : pass? [.brace] "\x7d\x7b" = some [.brace]) stack
  have hclose : Passes "\x7d: " (.brace :: stack) stack :=
    Passes.of_pass? (by decide +kernel : pass? [.brace] "\x7d: " = some []) stack
  rw [Clause.condition]
  split
  · exact ⟨[], Reads.nil, rfl⟩
  · rename_i b hbound
    exact (((hopen.append (passes_repr b.numerator _)).append hover).append
      (passes_repr b.denominator _)).append hclose

/-- A text that can be read, and is balanced. -/
def IsComplete (text : String) : Prop := ∃ ls ∈ lexemes? text.toList, Balanced ls

instance (text : String) : Decidable (IsComplete text) := inferInstanceAs (Decidable (∃ _, _))

/-- Where a bracket is opened, a word in front has ended. -/
theorem IsComplete.passes_left {name : String} (hname : IsComplete name) (stack : List Bracket) :
    Passes (name ++ "\\left(") stack (.fence :: stack) := by
  obtain ⟨ls, hread, hbalanced⟩ := hname
  obtain ⟨xs, hxs, hnest⟩ := Latex.passes_left stack
  refine ⟨ls ++ xs, fun rest => ?_, ?_⟩
  · rw [String.toList_append, List.append_assoc, lexemes?_append hread, hxs, Option.map_map]
    · simp only [Function.comp_def, List.append_assoc]
    · rintro - - - c ⟨⟩
      rfl
  · rw [nest_append, hbalanced.nest_eq, Option.bind_some, hnest]

section

variable {style : Style Float} (hnames : ∀ h, IsComplete (style.helperName h))
include hnames

theorem passes_call (h : Helper) (points : List (Point Float)) (u : LocalParameter)
    (stack : List Bracket) : Passes (h.call formulaNumber style points u) stack stack := by
  refine (((hnames h).passes_left stack).append ?_).append (passes_right stack)
  refine passes_intercalate (passes_comma _) fun t ht => ?_
  rcases List.mem_append.mp ht with ht | ht
  · obtain ⟨p, -, rfl⟩ := List.mem_map.mp ht
    exact passes_latex_point p _
  · rw [List.mem_singleton.mp ht]
    exact passes_latex_parameter u _

theorem passes_body (clause : Clause Float) (stack : List Bracket) :
    Passes (clause.body formulaNumber style) stack stack := by
  have hplus : Passes "+" stack stack :=
    Passes.of_pass? (by decide +kernel : pass? [] "+" = some []) stack
  rw [Clause.body]
  split
  · exact (((passes_latex_point _ stack).append hplus).append (passes_factorLatex _ stack)).append
      (passes_latex_point _ stack)
  · exact passes_call hnames .quadratic _ _ stack
  · exact passes_call hnames .cubic _ _ stack

/-- The body of a function changes no brackets. -/
theorem passes_outline (outline : Outline Float) (stack : List Bracket) :
    Passes (outline.body style) stack stack := by
  refine passes_intercalate (passes_comma stack) fun t ht => ?_
  obtain ⟨clause, -, rfl⟩ := List.mem_map.mp ht
  exact (passes_condition clause stack).append (passes_body hnames clause stack)

end

/-! ## Formulas -/

/-- The characters of a text without backslashes. -/
def chars (text : String) : List Lexeme := text.toList.map .char

/-- The brackets of a formula match, and its label stands in a subscript that ends right behind
it. -/
def IsNested (label formula : String) : Prop :=
  ∃ (tail : String) (name after : List Lexeme),
    formula = functionName label ++ tail ∧
    lexemes? (Label.escape label).toList = some name ∧ lexemes? tail.toList = some after ∧
    lexemes? formula.toList =
      some (chars "g_\x7b" ++ (chars "lyph" ++ name ++ Bracket.brace.closing :: after)) ∧
    Balanced (chars "g_\x7b" ++ (chars "lyph" ++ name ++ Bracket.brace.closing :: after)) ∧
    closeGroup? [.brace] (chars "lyph" ++ name ++ Bracket.brace.closing :: after) =
      some (chars "lyph" ++ name, after)

theorem isNested_of_passes (label : String) {tail : String} (htail : Passes tail [] []) :
    IsNested label (functionName label ++ tail) := by
  obtain ⟨name, hname, hnest⟩ := passes_escape label []
  obtain ⟨after, hafter, hclosed⟩ := htail
  have hplain : ∀ c ∈ "lyph".toList, isPlain c = true := List.all_eq_true.mp (by decide)
  have hgroup : Balanced (chars "lyph" ++ name) := by
    rw [Balanced, nest_append, chars, nest_plain hplain, Option.bind_some, hnest]
  refine ⟨tail, name, after, rfl, hname.lexemes?_eq, hafter.lexemes?_eq, ?_, ?_, ?_⟩
  · have hopening : Reads "g_\x7blyph".toList (chars "g_\x7b" ++ chars "lyph") :=
      reads_chars (by decide)
    have hclosing : Reads "\x7d".toList [Bracket.brace.closing] := reads_chars (by decide)
    have h := (((hopening.append hname).append hclosing).append hafter).lexemes?_eq
    simpa only [functionName, String.toList_append, List.append_assoc, List.singleton_append]
      using h
  · have hopening : nest [] (chars "g_\x7b") = some [.brace] := by decide
    rw [Balanced, nest_append, hopening, Option.bind_some, nest_append, hgroup.nest_eq]
    exact hclosed
  · exact closeGroup?_append hgroup .brace after

end PiecewiseGlyph.Latex

namespace PiecewiseGlyph

open Latex

/-- **Formulas are balanced.** If the names of the helper functions can be read and are balanced,
then so is the formula of every outline under every label. Its name ends where the brace behind the
escaped label closes the subscript. -/
theorem Formula.isNested_latex {style : Style Float} (hnames : ∀ h, IsComplete (style.helperName h))
    (label : String) (outline : Outline Float) :
    IsNested label (ofOutline label outline style).latex := by
  have hopen :
      pass? [] "\\left(P,\\ t,\\ s_\x7bcale\x7d\\right)=P+\\frac\x7bs_\x7bcale\x7d\x7d\x7b" =
        some [.brace] := by decide +kernel
  have hcases : pass? [.brace] "\x7d\\left\\\x7b" = some [.fence] := by decide +kernel
  have hclose : pass? [.fence] "\\right\\\x7d" = some [] := by decide +kernel
  have htail :=
    ((((Passes.of_pass? hopen []).append (passes_formulaNumber style.normalization _)).append
      (.of_pass? hcases [])).append (passes_outline hnames outline _)).append (.of_pass? hclose [])
  rw [latex_ofOutline]
  simpa only [String.append_assoc] using isNested_of_passes label htail

/-! A label that spells brackets, and helper names that end in a word and in a group. -/

/-- The style. -/
def wordyStyle : Style Float := ⟨1000, "\\beta", "\\left[\\mathrm\x7bb\x7d\\right]_\x7b3\x7d"⟩

theorem Formula.isNested_latex_unruly :
    (∀ h, IsComplete (wordyStyle.helperName h)) ∧
      IsNested "\\right\x7d^\\left"
        (ofOutline "\\right\x7d^\\left" (fromZero 0) wordyStyle).latex := by
  have hnames : ∀ h, IsComplete (wordyStyle.helperName h) := by
    rintro (_ | _)
    · decide +kernel
    · decide +kernel
  exact ⟨hnames, Formula.isNested_latex hnames _ _⟩

end PiecewiseGlyph
