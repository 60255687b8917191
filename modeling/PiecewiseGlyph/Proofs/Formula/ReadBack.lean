import PiecewiseGlyph.Proofs.Coordinates
import PiecewiseGlyph.Proofs.Formula.Reading

/-!
# Reading formulas back

What is read from the written form of a function is the function.

* `Writes` says that a number is written in plain decimals and read back as a value, and `IsName`
  that a name can be told from a condition and from a bracket;
* `readPoint_latex`, `readParameter_latex`, `readExpression_body` and `readBranch_latex` read back
  the parts of a clause, whatever follows them;
* `readSeparated_intercalate` reads back lists, and `readLabel_escape` labels;
* `readEquation_latex` reads back the whole.
-/

namespace PiecewiseGlyph.Reading

variable {α β γ : Type}

/-! ## Where a value ends -/

/-- A text ends, or goes on with a character outside a class. -/
def Stops (p : Char → Bool) (rest : List Char) : Prop := ∀ c ∈ rest.head?, p c = false

theorem stops_append {p : Char → Bool} {word : List Char} (h : word.head?.any (!p ·) = true)
    (rest : List Char) : Stops p (word ++ rest) := by
  cases word with
  | nil => cases h
  | cons c cs =>
    rintro d ⟨⟩
    simpa using h

/-- No digit follows if no character of a decimal does. -/
theorem Stops.isDigit {rest : List Char} (h : Stops isLiteralChar rest) :
    Stops Char.isDigit rest := by
  intro c hc
  have hc := h c hc
  simp only [isLiteralChar, Bool.or_eq_false_iff] at hc
  exact hc.1.1

/-- Characters of a class are taken together. -/
theorem upTo_append {p : Char → Bool} {text rest : List Char} (htext : ∀ c ∈ text, p c = true)
    (hrest : Stops p rest) : Text.upTo (! p ·) (text ++ rest) = (text, rest) := by
  have htext : ∀ c ∈ text, (! p c) = false := fun c hc => by rw [htext c hc]; rfl
  cases rest with
  | nil => rw [List.append_nil, Text.upTo_eq_self htext]
  | cons c rest => exact Text.upTo_append_cons htext (by simp [hrest c rfl]) rest

/-! ## Numbers -/

/-- A number is written with the characters of plain decimals, and read back as a value. -/
structure Writes (literal : List Char → Option β) (number : α → String) (value : α → β) (x : α) :
    Prop where
  chars : (number x).toList.all isLiteralChar = true
  reads : literal (number x).toList = some (value x)

instance [DecidableEq β] (literal : List Char → Option β) (number : α → String) (value : α → β)
    (x : α) : Decidable (Writes literal number value x) :=
  decidable_of_iff ((number x).toList.all isLiteralChar = true ∧
    literal (number x).toList = some (value x)) ⟨fun h => ⟨h.1, h.2⟩, fun h => ⟨h.1, h.2⟩⟩

theorem readLiteral_append {literal : List Char → Option β} {number : α → String} {value : α → β}
    {x : α} (hx : Writes literal number value x) {rest : List Char}
    (hrest : Stops isLiteralChar rest) :
    readLiteral literal ((number x).toList ++ rest) = some (value x, rest) := by
  simp only [readLiteral, upTo_append (List.all_eq_true.mp hx.chars) hrest, hx.reads,
    Option.map_some]

theorem readNat_append (n : Nat) {rest : List Char} (hrest : Stops Char.isDigit rest) :
    readNat (n.repr.toList ++ rest) = some (n, rest) := by
  simp only [readNat, upTo_append (fun _ => Numeral.isDigit_of_mem_repr) hrest,
    List.isEmpty_eq_false_iff.mpr (Numeral.repr_ne_nil n), Numeral.natOfDigits_repr,
    Bool.false_eq_true, if_false]

/-! ## Points and parameters -/

section Points

variable {literal : List Char → Option β} {number : α → String} {value : α → β}

/-- Both coordinates are written and read back. -/
def WritesPoint (literal : List Char → Option β) (number : α → String) (value : α → β)
    (p : Point α) : Prop :=
  Writes literal number value p.x ∧ Writes literal number value p.y

instance [DecidableEq β] (literal : List Char → Option β) (number : α → String) (value : α → β)
    (p : Point α) : Decidable (WritesPoint literal number value p) :=
  inferInstanceAs (Decidable (_ ∧ _))

/-- A point begins with a bracket. -/
theorem exists_latex_eq (number : α → String) (p : Point α) :
    ∃ tail, (p.latex number).toList = "\\left(".toList ++ tail := by
  refine ⟨?_, ?_⟩
  · exact (number p.x).toList ++
      (",\\ ".toList ++ ((number p.y).toList ++ "\\right)".toList))
  · simp only [Point.latex, String.toList_append, List.append_assoc]

theorem stops_latex (p : Point α) (rest : List Char) :
    Stops isLiteralChar ((p.latex number).toList ++ rest) := by
  obtain ⟨tail, h⟩ := exists_latex_eq number p
  rw [h, List.append_assoc]
  exact stops_append (by decide) _

theorem readPoint_latex {p : Point α} (hp : WritesPoint literal number value p)
    (rest : List Char) :
    readPoint literal ((p.latex number).toList ++ rest) = some (p.map value, rest) := by
  simp (disch := exact stops_append (by decide) _) only [Point.latex, String.toList_append,
    List.append_assoc, readPoint, Text.dropWord?_append, readLiteral_append hp.1,
    readLiteral_append hp.2, Option.bind_eq_bind, Option.bind_some]
  rfl

theorem readParameter_latex (u : LocalParameter) {rest : List Char}
    (hrest : Stops isLiteralChar rest) :
    readParameter (u.latex.toList ++ rest) = some (u, rest) := by
  obtain ⟨factor, shift⟩ := u
  simp (disch := exact stops_append (by decide) _) only [LocalParameter.latex, String.toList_append,
    List.append_assoc, readParameter, readNat_append factor, Text.dropWord?_append,
    Option.bind_eq_bind, Option.bind_some]
  by_cases hshift : shift = 0
  · subst hshift
    have hminus : Text.dropWord? "-".toList rest = none := by
      cases rest with
      | nil => rfl
      | cons c rest =>
        refine Text.dropWord?_cons_of_ne ?_ _ _
        rintro rfl
        exact absurd (hrest '-' rfl) (by decide)
    rw [if_pos rfl, String.toList_empty, List.nil_append]
    simp only [hminus]
    rfl
  · simp only [if_neg hshift, String.toList_append, List.append_assoc, Text.dropWord?_append,
      readNat_append shift hrest.isDigit, Option.bind_some]
    rfl

/-- A parameter does not begin with a bracket. -/
theorem dropWord?_latex (u : LocalParameter) (rest : List Char) :
    Text.dropWord? "\\left(".toList (u.latex.toList ++ rest) = none := by
  obtain ⟨c, cs, h⟩ := List.exists_cons_of_ne_nil (Numeral.repr_ne_nil u.factor)
  have hc : c.isDigit = true := Numeral.isDigit_of_mem_repr (h ▸ List.mem_cons_self)
  rw [LocalParameter.latex, String.toList_append, String.toList_append, h, List.cons_append,
    List.cons_append, List.cons_append]
  refine Text.dropWord?_cons_of_ne ?_ _ _
  rintro rfl
  exact absurd hc (by decide)

/-- As a factor, a parameter with a shift stands in brackets. -/
theorem readFactor_factorLatex (u : LocalParameter) {rest : List Char}
    (hrest : Stops isLiteralChar rest) :
    readFactor (u.factorLatex.toList ++ rest) = some (u, rest) := by
  rw [LocalParameter.factorLatex]
  split
  · simp only [readFactor, dropWord?_latex, readParameter_latex u hrest]
  · simp (disch := exact stops_append (by decide) _) only [String.toList_append, List.append_assoc,
      readFactor, Text.dropWord?_append, readParameter_latex u, Option.bind_eq_bind,
      Option.bind_some]
    rfl

/-- An argument as it is written. -/
def Argument.latex (number : α → String) : Argument α → String
  | point p => p.latex number
  | parameter u => u.latex

/-- An argument with other coordinates. -/
def Argument.map (value : α → β) : Argument α → Argument β
  | point p => point (p.map value)
  | parameter u => parameter u

theorem readArgument_latex (a : Argument α)
    (ha : ∀ p, a = .point p → WritesPoint literal number value p) {rest : List Char}
    (hrest : Stops isLiteralChar rest) :
    readArgument literal ((a.latex number).toList ++ rest) = some (a.map value, rest) := by
  cases a with
  | point p =>
    rw [Argument.latex, readArgument, readPoint_latex (ha p rfl)]
    rfl
  | parameter u =>
    have hpoint : readPoint literal (u.latex.toList ++ rest) = none := by
      rw [readPoint, dropWord?_latex]
      rfl
    rw [Argument.latex, readArgument, hpoint]
    simp only [readParameter_latex u hrest, Option.map_some]
    rfl

end Points

/-! ## Lists -/

/-- Written items with a word between them are read one by one. -/
theorem readSeparated_intercalate {item : Reader β} {separator : List Char} {print : γ → List Char}
    {value : γ → β} {xs : List γ} (hxs : xs ≠ [])
    (hitem : ∀ x ∈ xs, ∀ rest, Stops isLiteralChar rest →
      item (print x ++ rest) = some (value x, rest))
    (hseparator : separator.head?.any (! isLiteralChar ·) = true) {rest : List Char}
    (hrest : Stops isLiteralChar rest) (hstop : Text.dropWord? separator rest = none) :
    readSeparated item separator (separator.intercalate (xs.map print) ++ rest) =
      some (xs.map value, rest) := by
  induction xs with
  | nil => exact absurd rfl hxs
  | cons x xs ih =>
    cases xs with
    | nil =>
      rw [List.map_singleton, List.intercalate_singleton, readSeparated,
        hitem x List.mem_cons_self rest hrest]
      simp only [hstop, List.map_singleton]
    | cons y ys =>
      have ih := ih (List.cons_ne_nil y ys) fun z hz => hitem z (List.mem_cons_of_mem x hz)
      have hlength : 0 < separator.length := by
        cases separator with
        | nil => cases hseparator
        | cons c cs => exact Nat.succ_pos _
      rw [List.map_cons, List.map_cons, List.intercalate_cons_cons, List.append_assoc,
        List.append_assoc, readSeparated,
        hitem x List.mem_cons_self _ (stops_append hseparator _)]
      simp only [Text.dropWord?_append]
      rw [← List.map_cons, ih, if_pos (by simp only [List.length_append]; omega)]
      rfl

/-! ## Clauses -/

/-- A name that is told from a condition by its first letter, and ends where a bracket begins. -/
structure IsName (name : List Char) : Prop where
  nonempty : name ≠ []
  letter : name.head? ≠ some 't'
  bracket : '\\' ∉ name

/-- The arguments of a call. -/
def arguments (points : List (Point α)) (u : LocalParameter) : List (Argument α) :=
  points.map .point ++ [.parameter u]

/-- What a clause draws. -/
def expression (value : α → β) (style : Style α) (clause : Clause α) : Expression β :=
  let call (h : Helper) (points : List (Point α)) :=
    .call (style.helperName h).toList ((arguments points clause.parameter).map (.map value))
  match clause.segment with
  | .line p offset => .sum (p.map value) clause.parameter (offset.map value)
  | .quadratic p q r => call .quadratic [p, q, r]
  | .cubic p q r u => call .cubic [p, q, r, u]

/-- A clause as a branch. -/
def branch (value : α → β) (style : Style α) (clause : Clause α) : Branch β :=
  ⟨clause.bound, expression value style clause⟩

section Clauses

variable {literal : List Char → Option β} {number : α → String} {value : α → β} {style : Style α}

theorem readExpression_call {h : Helper} (hname : IsName (style.helperName h).toList)
    {points : List (Point α)} (hpoints : ∀ p ∈ points, WritesPoint literal number value p)
    (u : LocalParameter) (rest : List Char) :
    readExpression literal ((h.call number style points u).toList ++ rest) =
      some (.call (style.helperName h).toList ((arguments points u).map (.map value)), rest) := by
  have hsplit : ∀ rest, Text.splitAtWord? "\\left(".toList
      ((style.helperName h).toList ++ ("\\left(".toList ++ rest)) =
        some ((style.helperName h).toList, rest) :=
    Text.splitAtWord?_append hname.bracket "left(".toList
  have hprint : (points.map (Point.latex number) ++ [u.latex]).map String.toList =
      (arguments points u).map fun a => (a.latex number).toList := by
    simp only [arguments, List.map_append, List.map_map, List.map_singleton, Function.comp_def,
      Argument.latex]
  have hargs : readSeparated (readArgument literal) ",\\ ".toList
      (",\\ ".toList.intercalate ((arguments points u).map fun a => (a.latex number).toList) ++
        ("\\right)".toList ++ rest)) =
      some ((arguments points u).map (.map value), "\\right)".toList ++ rest) := by
    refine readSeparated_intercalate (by simp [arguments]) (fun a ha rest hrest => ?_) (by decide)
      (stops_append (by decide) _) rfl
    refine readArgument_latex a (fun p hp => hpoints p ?_) hrest
    simpa [hp, arguments] using ha
  simp only [Helper.call, String.toList_append, String.toList_intercalate, List.append_assoc,
    hprint, readExpression, hsplit, hargs, List.isEmpty_eq_false_iff.mpr hname.nonempty,
    Text.dropWord?_append, Option.bind_eq_bind, Option.bind_some, Bool.false_eq_true, if_false]
  rfl

theorem readExpression_body (hnames : ∀ h, IsName (style.helperName h).toList) {clause : Clause α}
    (hpoints : ∀ p ∈ clause.segment.points, WritesPoint literal number value p) (rest : List Char) :
    readExpression literal ((clause.body number style).toList ++ rest) =
      some (expression value style clause, rest) := by
  obtain ⟨bound, u, segment⟩ := clause
  cases segment with
  | line p offset =>
    have hp := hpoints p List.mem_cons_self
    have hoffset := hpoints offset (List.mem_cons_of_mem _ List.mem_cons_self)
    obtain ⟨tail, htail⟩ := exists_latex_eq number p
    have hsplit : ∀ rest, Text.splitAtWord? "\\left(".toList ((p.latex number).toList ++ rest) =
        some ([], tail ++ rest) := by
      intro rest
      rw [htail, List.append_assoc]
      exact Text.splitAtWord?_append List.not_mem_nil "left(".toList (tail ++ rest)
    simp only [Clause.body, String.toList_append, List.append_assoc, readExpression, hsplit,
      readPoint_latex hp, readPoint_latex hoffset, Text.dropWord?_append,
      readFactor_factorLatex u (stops_latex offset rest), List.isEmpty_nil, Option.bind_eq_bind,
      Option.bind_some, if_true]
    rfl
  | quadratic p q r => exact readExpression_call (hnames .quadratic) hpoints u rest
  | cubic p q r v => exact readExpression_call (hnames .cubic) hpoints u rest

/-- What a clause draws is not taken for a condition. -/
theorem dropWord?_body (hnames : ∀ h, IsName (style.helperName h).toList) (clause : Clause α)
    (rest : List Char) :
    Text.dropWord? "t<\\frac\x7b".toList ((clause.body number style).toList ++ rest) = none := by
  have hcall : ∀ (h : Helper) points, Text.dropWord? "t<\\frac\x7b".toList
      ((h.call number style points clause.parameter).toList ++ rest) = none := by
    intro h points
    obtain ⟨c, cs, hname⟩ := List.exists_cons_of_ne_nil (hnames h).nonempty
    rw [Helper.call, String.toList_append, String.toList_append, String.toList_append, hname,
      List.cons_append, List.cons_append, List.cons_append, List.cons_append]
    refine Text.dropWord?_cons_of_ne ?_ _ _
    rintro rfl
    exact (hnames h).letter (by rw [hname]; rfl)
  obtain ⟨bound, u, segment⟩ := clause
  cases segment with
  | line p offset =>
    obtain ⟨tail, htail⟩ := exists_latex_eq number p
    simp only [Clause.body, String.toList_append, htail, List.append_assoc]
    exact Text.dropWord?_cons_of_ne (by decide) _ _
  | quadratic p q r => exact hcall .quadratic [p, q, r]
  | cubic p q r v => exact hcall .cubic [p, q, r, v]

theorem readThreshold_append (b : Threshold) {rest : List Char} (hrest : Stops Char.isDigit rest) :
    readThreshold (b.numerator.repr.toList ++ ("\x7d\x7b".toList ++
      (b.denominator.repr.toList ++ rest))) = some (b, rest) := by
  simp (disch := exact stops_append (by decide) _) only [readThreshold, readNat_append b.numerator,
    readNat_append b.denominator hrest, Text.dropWord?_append, Option.bind_eq_bind,
    Option.bind_some]
  rfl

theorem readBranch_latex (hnames : ∀ h, IsName (style.helperName h).toList) {clause : Clause α}
    (hpoints : ∀ p ∈ clause.segment.points, WritesPoint literal number value p) (rest : List Char) :
    readBranch literal ((clause.latex number style).toList ++ rest) =
      some (branch value style clause, rest) := by
  have hbody := readExpression_body hnames hpoints rest
  rw [Clause.latex, Clause.condition, String.toList_append, List.append_assoc, branch]
  split
  · rename_i hbound
    rw [hbound, String.toList_empty, List.nil_append, readBranch, dropWord?_body hnames]
    simp only [hbody, Option.bind_eq_bind, Option.bind_some]
    rfl
  · rename_i b hbound
    simp (disch := exact stops_append (by decide) _) only [hbound, String.toList_append,
      List.append_assoc, readBranch, Text.dropWord?_append, readThreshold_append b, hbody,
      Option.bind_eq_bind, Option.bind_some]
    rfl

end Clauses

/-! ## Equations -/

theorem readLabelChar_of_ne {c : Char} (hc : c ≠ '\\') (cs : List Char) :
    readLabelChar (c :: cs) = some (c, cs) := by
  unfold readLabelChar
  split
  · rename_i h
    cases h
  · rename_i h
    exact absurd (List.cons.inj h).1 hc
  · rename_i h
    cases h
    rfl

theorem readLabelChar_escapeChar (c : Char) (rest : List Char) :
    readLabelChar (Label.escapeChar c ++ rest) = some (c, rest) := by
  unfold Label.escapeChar
  split
  · rename_i hc
    obtain rfl | rfl | rfl | rfl | rfl | rfl | rfl : c = '\x7b' ∨ c = '\x7d' ∨ c = '_' ∨ c = '%' ∨
        c = '#' ∨ c = '&' ∨ c = '$' := by simpa using hc
    all_goals rfl
  · split
    · rename_i hc
      rw [hc]
      rfl
    · rename_i hbackslash
      split
      · rename_i hc
        rw [hc]
        rfl
      · split
        · rename_i hc
          rw [hc]
          rfl
        · exact readLabelChar_of_ne hbackslash rest

/-- No character of a label is written with a brace in front. -/
theorem exists_escapeChar_eq (c : Char) :
    ∃ d ds, Label.escapeChar c = d :: ds ∧ d ≠ '\x7d' := by
  unfold Label.escapeChar
  split
  · exact ⟨_, _, rfl, by decide⟩
  · rename_i hc
    split
    · exact ⟨_, _, rfl, by decide⟩
    · split
      · exact ⟨_, _, rfl, by decide⟩
      · split
        · exact ⟨_, _, rfl, by decide⟩
        · refine ⟨c, [], rfl, ?_⟩
          rintro rfl
          exact hc (by decide)

/-- A label is read back, and the brace behind it ends it. -/
theorem readLabel_escape (label : String) (rest : List Char) :
    readLabel ((Label.escape label).toList ++ ("\x7d".toList ++ rest)) =
      some (label.toList, rest) := by
  rw [Label.escape, String.toList_ofList]
  induction label.toList with
  | nil =>
    rw [List.flatMap_nil, List.nil_append, readLabel]
    simp only [Text.dropWord?_append]
  | cons c cs ih =>
    obtain ⟨d, ds, hd, hbrace⟩ := exists_escapeChar_eq c
    have hnone : ∀ rest, Text.dropWord? "\x7d".toList (Label.escapeChar c ++ rest) = none := by
      intro rest
      rw [hd, List.cons_append]
      exact Text.dropWord?_cons_of_ne hbrace _ _
    have hlength : 0 < (Label.escapeChar c).length := by
      rw [hd]
      exact Nat.succ_pos _
    rw [List.flatMap_cons, List.append_assoc, readLabel, hnone, readLabelChar_escapeChar]
    simp only [ih]
    rw [if_pos (by simp only [List.length_append]; omega)]
    rfl

theorem readBranches_append {literal : List Char → Option β} {number : α → String} {value : α → β}
    {style : Style α} (hnames : ∀ h, IsName (style.helperName h).toList) {clauses : List (Clause α)}
    (hpoints : ∀ clause ∈ clauses, ∀ p ∈ clause.segment.points,
      WritesPoint literal number value p) :
    readBranches literal
      (",\\ ".toList.intercalate (clauses.map fun clause => (clause.latex number style).toList) ++
        "\\right\\\x7d".toList) =
      (clauses.map (branch value style), "\\right\\\x7d".toList) := by
  cases clauses with
  | nil =>
    have hend : readBranch literal "\\right\\\x7d".toList = none := rfl
    rw [readBranches, List.map_nil, List.intercalate_nil, List.nil_append, readSeparated, hend]
    rfl
  | cons clause rest =>
    rw [readBranches, readSeparated_intercalate (List.cons_ne_nil clause rest)
      (fun c hc rest _ => readBranch_latex hnames (hpoints c hc) rest) (by decide)
      (by rintro c ⟨⟩; rfl) rfl]
    rfl

/-- A function as an equation. -/
def equation (value : α → β) (style : Style α) (f : Piecewise α) : Equation β :=
  ⟨f.label.toList, value f.normalization, f.clauses.map (branch value style)⟩

theorem readEquation_latex {literal : List Char → Option β} {number : α → String} {value : α → β}
    {style : Style α} (hnames : ∀ h, IsName (style.helperName h).toList) {f : Piecewise α}
    (hdivisor : Writes literal number value f.normalization)
    (hpoints : ∀ clause ∈ f.clauses, ∀ p ∈ clause.segment.points,
      WritesPoint literal number value p) :
    readEquation literal (f.latex number style).toList = some (equation value style f) := by
  have hbrace :
      "\x7d\\left(P,\\ t,\\ s_\x7bcale\x7d\\right)=P+\\frac\x7bs_\x7bcale\x7d\x7d\x7b".toList =
        "\x7d".toList ++
        "\\left(P,\\ t,\\ s_\x7bcale\x7d\\right)=P+\\frac\x7bs_\x7bcale\x7d\x7d\x7b".toList := rfl
  have hend : Text.dropWord? "\\right\\\x7d".toList "\\right\\\x7d".toList = some [] := rfl
  simp (disch := exact stops_append (by decide) _) only [Piecewise.latex, String.toList_append,
    String.toList_intercalate, List.append_assoc, List.map_map, Function.comp_def, hbrace,
    readEquation, Text.dropWord?_append, readLabel_escape, readLiteral_append hdivisor,
    readBranches_append hnames hpoints, hend, Option.bind_eq_bind, Option.bind_some,
    List.isEmpty_nil, if_true]
  rfl

end PiecewiseGlyph.Reading
