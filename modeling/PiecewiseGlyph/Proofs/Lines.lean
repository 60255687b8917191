import PiecewiseGlyph.Font
import PiecewiseGlyph.Glyph
import PiecewiseGlyph.Proofs.Formula.Decoding

/-!
# One formula per line

The formulas of several glyphs are written with line ends between them. A formula takes one line
only if it has no line end of its own, which is so unless the label of its glyph has one.

* `HasLines` says which lines a text has, and `hasLines_intercalate_iff` when it has those that were
  joined;
* `Formula.oneLine_latex_iff`: a formula is one line exactly if the label is;
* `renderText_eq_intercalate`: the two levels of joining are one;
* `hasLines_render_text_iff`: the rendered text has one line per formula exactly if the labels of
  the glyphs that were converted have no line ends.
-/

namespace PiecewiseGlyph

/-! ## Lines -/

/-- The lines of a text, between its line ends. -/
def linesOf (text : String) : List (List Char) := text.toList.splitOn '\n'

/-- A text that has these lines, or is empty if there are none. -/
def HasLines (text : String) (lines : List String) : Prop :=
  if lines = [] then text = "" else linesOf text = lines.map String.toList

instance (text : String) (lines : List String) : Decidable (HasLines text lines) :=
  inferInstanceAs
    (Decidable (if lines = [] then text = "" else linesOf text = lines.map String.toList))

/-- A text without a line end. -/
def OneLine (text : String) : Prop := '\n' ∉ text.toList

instance (text : String) : Decidable (OneLine text) := inferInstanceAs (Decidable (¬ _))

section Splitting

variable {α : Type} [DecidableEq α] {a : α}

/-- Splitting what was joined splits the parts. -/
theorem splitOn_intercalate_eq_flatMap (a : α) {ls : List (List α)} (hls : ls ≠ []) :
    ([a].intercalate ls).splitOn a = ls.flatMap (List.splitOn a) := by
  induction ls with
  | nil => exact absurd rfl hls
  | cons l ls ih =>
    cases ls with
    | nil => simp
    | cons l' ls =>
      rw [List.intercalate_cons_cons, List.append_assoc, List.singleton_append,
        List.splitOn_append_cons_self, ih (List.cons_ne_nil _ _)]
      rfl

/-- A part that is split has two parts at least. -/
theorem one_lt_length_splitOn {l : List α} (h : a ∈ l) : 1 < (l.splitOn a).length := by
  obtain ⟨s, t, rfl⟩ := List.append_of_mem h
  have hs := List.length_pos_iff.mpr (List.splitOn_ne_nil a s)
  have ht := List.length_pos_iff.mpr (List.splitOn_ne_nil a t)
  rw [List.splitOn_append_cons_self, List.length_append]
  omega

theorem length_le_flatMap_splitOn (a : α) (ls : List (List α)) :
    ls.length ≤ (ls.flatMap (List.splitOn a)).length := by
  induction ls with
  | nil => exact Nat.zero_le _
  | cons l ls ih =>
    have hl := List.length_pos_iff.mpr (List.splitOn_ne_nil a l)
    rw [List.flatMap_cons, List.length_append, List.length_cons]
    omega

/-- The parts are found again exactly if none is split. -/
theorem splitOn_intercalate_iff {ls : List (List α)} (hls : ls ≠ []) :
    ([a].intercalate ls).splitOn a = ls ↔ ∀ l ∈ ls, a ∉ l := by
  refine ⟨fun h l hl ha => ?_, fun h => List.splitOn_intercalate a h hls⟩
  rw [splitOn_intercalate_eq_flatMap a hls] at h
  obtain ⟨xs, ys, rfl⟩ := List.append_of_mem hl
  have hlength := congrArg List.length h
  have hxs := length_le_flatMap_splitOn a xs
  have hys := length_le_flatMap_splitOn a ys
  have hl := one_lt_length_splitOn ha
  simp only [List.flatMap_append, List.flatMap_cons, List.length_append, List.length_cons]
    at hlength
  omega

end Splitting

/-- Lines that were joined are found again exactly if each is one line. -/
theorem hasLines_intercalate_iff (lines : List String) :
    HasLines ("\n".intercalate lines) lines ↔ ∀ line ∈ lines, OneLine line := by
  rw [HasLines, linesOf, String.toList_intercalate]
  split
  · rename_i hnil
    subst hnil
    exact ⟨fun _ _ h => absurd h List.not_mem_nil, fun _ => rfl⟩
  · rename_i hnil
    have hnewline : "\n".toList = ['\n'] := rfl
    rw [hnewline, splitOn_intercalate_iff (mt List.map_eq_nil_iff.mp hnil), List.forall_mem_map]
    rfl

/-! ## Texts of one line -/

theorem oneLine_append {s t : String} : OneLine (s ++ t) ↔ OneLine s ∧ OneLine t := by
  rw [OneLine, String.toList_append, List.mem_append, not_or]
  rfl

theorem oneLine_intercalate {separator : String} {texts : List String} (hs : OneLine separator)
    (htexts : ∀ t ∈ texts, OneLine t) : OneLine (separator.intercalate texts) := by
  induction texts with
  | nil =>
    rw [OneLine, String.toList_intercalate]
    exact List.not_mem_nil
  | cons t texts ih =>
    have ih := ih fun t' h => htexts t' (List.mem_cons_of_mem t h)
    have ht : '\n' ∉ t.toList := htexts t List.mem_cons_self
    rw [OneLine, String.toList_intercalate] at ih ⊢
    cases texts with
    | nil => rwa [List.map_singleton, List.intercalate_singleton]
    | cons t' texts =>
      rw [List.map_cons, List.intercalate_cons_of_ne_nil (by simp), List.mem_append,
        List.mem_append, not_or, not_or]
      exact ⟨⟨ht, hs⟩, ih⟩

theorem oneLine_repr (n : Nat) : OneLine n.repr := fun h =>
  absurd (Numeral.isDigit_of_mem_repr h) (by decide)

/-- No number is written with a line end. -/
theorem oneLine_formulaNumber (x : Float) : OneLine (formulaNumber x) := fun h =>
  absurd (List.all_eq_true.mp (Reading.all_formulaNumber x) '\n' h) (by decide)

/-! ## Formulas -/

section Formulas

variable {style : Style Float}

theorem Point.oneLine_latex (p : Point Float) : OneLine (p.latex formulaNumber) := by
  simp only [Point.latex, oneLine_append]
  exact ⟨⟨⟨⟨by decide, oneLine_formulaNumber _⟩, by decide⟩, oneLine_formulaNumber _⟩, by decide⟩

theorem LocalParameter.oneLine_latex (u : LocalParameter) : OneLine u.latex := by
  simp only [LocalParameter.latex, oneLine_append]
  refine ⟨⟨oneLine_repr _, by decide⟩, ?_⟩
  split
  · decide
  · exact oneLine_append.mpr ⟨by decide, oneLine_repr _⟩

theorem LocalParameter.oneLine_factorLatex (u : LocalParameter) : OneLine u.factorLatex := by
  rw [LocalParameter.factorLatex]
  split
  · exact u.oneLine_latex
  · exact oneLine_append.mpr ⟨oneLine_append.mpr ⟨by decide, u.oneLine_latex⟩, by decide⟩

theorem Helper.oneLine_call {h : Helper} (hname : OneLine (style.helperName h))
    (points : List (Point Float)) (u : LocalParameter) :
    OneLine (h.call formulaNumber style points u) := by
  simp only [Helper.call, oneLine_append]
  refine ⟨⟨⟨hname, by decide⟩, oneLine_intercalate (by decide) fun t ht => ?_⟩, by decide⟩
  rcases List.mem_append.mp ht with ht | ht
  · obtain ⟨p, -, rfl⟩ := List.mem_map.mp ht
    exact p.oneLine_latex
  · rw [List.mem_singleton.mp ht]
    exact u.oneLine_latex

theorem Clause.oneLine_condition (clause : Clause Float) : OneLine clause.condition := by
  rw [Clause.condition]
  split
  · decide
  · simp only [oneLine_append]
    exact ⟨⟨⟨⟨by decide, oneLine_repr _⟩, by decide⟩, oneLine_repr _⟩, by decide⟩

theorem Clause.oneLine_latex (hnames : ∀ h, OneLine (style.helperName h)) (clause : Clause Float) :
    OneLine (clause.latex formulaNumber style) := by
  refine oneLine_append.mpr ⟨clause.oneLine_condition, ?_⟩
  rw [Clause.body]
  split
  · simp only [oneLine_append]
    exact ⟨⟨⟨Point.oneLine_latex _, by decide⟩, LocalParameter.oneLine_factorLatex _⟩,
      Point.oneLine_latex _⟩
  · exact Helper.oneLine_call (hnames .quadratic) _ _
  · exact Helper.oneLine_call (hnames .cubic) _ _

theorem Helper.oneLine_definition (h : Helper) {name : String} (hname : OneLine name) :
    OneLine (h.definition name) := by
  have hparameters : OneLine (",\\ ".intercalate
      (Helper.pointNames.take h.weights.length ++ ["t"])) := by
    cases h <;> decide
  have hsum : OneLine ("+".intercalate (h.weights.zipWith (fun w p => w.latex ++ p)
      (Helper.pointNames.take h.weights.length))) := by
    cases h <;> decide +kernel
  simp only [Helper.definition, oneLine_append]
  exact ⟨⟨⟨⟨hname, by decide⟩, hparameters⟩, by decide⟩, hsum⟩

/-- A label is one line exactly if it is one when it is escaped. -/
theorem oneLine_escape_iff {label : String} : OneLine (Label.escape label) ↔ OneLine label := by
  have hchar : ∀ c, '\n' ∈ Label.escapeChar c ↔ '\n' = c := by
    intro c
    unfold Label.escapeChar
    split
    · simp
    · split
      · rename_i hc
        subst hc
        decide
      · split
        · rename_i hc
          subst hc
          decide
        · split
          · rename_i hc
            subst hc
            decide
          · exact List.mem_singleton
  rw [OneLine, OneLine, Label.escape, String.toList_ofList, List.mem_flatMap]
  simp only [hchar, exists_eq_right']

/-- **A formula is one line exactly if the label is.** -/
theorem Formula.oneLine_latex_iff (hnames : ∀ h, OneLine (style.helperName h)) (label : String)
    (outline : Outline Float) :
    OneLine (ofOutline label outline style).latex ↔ OneLine label := by
  have hbody : OneLine (outline.body style) := by
    refine oneLine_intercalate (by decide) fun t ht => ?_
    obtain ⟨clause, -, rfl⟩ := List.mem_map.mp ht
    exact clause.oneLine_latex hnames
  rw [latex_ofOutline, functionName]
  simp only [oneLine_append, oneLine_escape_iff]
  constructor
  · rintro ⟨⟨⟨⟨⟨⟨⟨-, h⟩, -⟩, -⟩, -⟩, -⟩, -⟩, -⟩
    exact h
  · intro h
    exact ⟨⟨⟨⟨⟨⟨⟨by decide, h⟩, by decide⟩, by decide⟩, oneLine_formulaNumber _⟩, by decide⟩,
      hbody⟩, by decide⟩

theorem Formula.latex_ne_empty (label : String) (outline : Outline Float) (style : Style Float) :
    (ofOutline label outline style).latex ≠ "" := by
  intro h
  have h := congrArg String.toList h
  simp [latex_ofOutline, functionName] at h

end Formulas

/-! ## Rendering -/

/-- Joining again what was joined with the same separator makes no difference. -/
theorem intercalate_append_singleton (separator : String) (xs : List String) {ys : List String}
    (hys : ys ≠ []) :
    separator.intercalate (xs ++ [separator.intercalate ys]) =
      separator.intercalate (xs ++ ys) := by
  refine String.toList_inj.mp ?_
  rw [String.toList_intercalate, String.toList_intercalate, List.map_append, List.map_append,
    List.map_singleton, String.toList_intercalate]
  induction xs with
  | nil => rw [List.map_nil, List.nil_append, List.nil_append, List.intercalate_singleton]
  | cons x xs ih =>
    rw [List.map_cons, List.cons_append, List.cons_append,
      List.intercalate_cons_of_ne_nil (by simp),
      List.intercalate_cons_of_ne_nil (by simp [hys]), ih]

/-- What is to be on a line each: the helper definitions if asked for, and the formulas that were
made. -/
def wantedLines (style : Style Float) (helpers : Bool) (outcomes : List Outcome) : List String :=
  (if helpers then style.helperDefinitions else []) ++
    (outcomes.filterMap Outcome.formula?).map Formula.latex

theorem renderText_eq_intercalate (style : Style Float) (helpers : Bool) {outcomes : List Outcome}
    (h : ∀ f ∈ outcomes.filterMap Outcome.formula?, f.latex ≠ "") :
    renderText style helpers outcomes = "\n".intercalate (wantedLines style helpers outcomes) := by
  rw [renderText, wantedLines, joinFormulas]
  generalize outcomes.filterMap Outcome.formula? = formulas at h
  cases formulas with
  | nil => rfl
  | cons f formulas =>
    have hne : "\n".intercalate ((f :: formulas).map Formula.latex) ≠ "" := by
      have hf : f.latex.toList ≠ [] := by
        rw [ne_eq, String.toList_eq_nil_iff]
        exact h f List.mem_cons_self
      rw [ne_eq, ← String.toList_eq_nil_iff, String.toList_intercalate]
      cases formulas <;> simp [hf]
    rw [String.isEmpty_eq_false_iff.mpr hne, if_neg Bool.false_ne_true,
      intercalate_append_singleton _ _ (by simp)]

theorem formula_mem_convertAll_iff {glyphs : List Glyph} {style : Style Float} {f : Formula} :
    f ∈ (convertAll glyphs style).filterMap Outcome.formula? ↔
      ∃ g ∈ glyphs, Formula.ofPathData g.label g.pathData style = .ok f := by
  rw [convertAll, List.filterMap_map, List.mem_filterMap]
  refine exists_congr fun g => and_congr_right fun _ => ?_
  rw [Function.comp_apply, convert, Outcome.formula?]
  cases Formula.ofPathData g.label g.pathData style with
  | error e => exact ⟨fun h => (by cases h), fun h => (by cases h)⟩
  | ok f' => exact ⟨fun h => congrArg _ (Option.some.inj h), fun h => congrArg _ (Except.ok.inj h)⟩

/-- **One formula per line.** If the names of the helper functions have no line ends, as is so for
the built-in ones, then the text for any glyphs has one line for each helper definition asked for
and for each formula, in order, exactly if the labels of all glyphs that have a formula are without
line ends. -/
theorem hasLines_render_text_iff {style : Style Float} (hnames : ∀ h, OneLine (style.helperName h))
    (helpers : Bool) (glyphs : List Glyph) :
    HasLines (render style helpers (convertAll glyphs style) .text)
        (wantedLines style helpers (convertAll glyphs style)) ↔
      ∀ g ∈ glyphs, ∀ f, Formula.ofPathData g.label g.pathData style = .ok f → OneLine g.label := by
  have hformula : ∀ {g : Glyph} {f}, Formula.ofPathData g.label g.pathData style = .ok f →
      f.latex ≠ "" ∧ (OneLine f.latex ↔ OneLine g.label) := by
    intro g f h
    obtain ⟨outline, -, rfl⟩ := Formula.ofPathData_eq_ok_iff.mp h
    exact ⟨Formula.latex_ne_empty _ _ _, Formula.oneLine_latex_iff hnames _ _⟩
  have hhelpers : ∀ t ∈ if helpers then style.helperDefinitions else [], OneLine t := by
    intro t ht
    split at ht
    · obtain ⟨h, -, rfl⟩ := List.mem_map.mp ht
      exact h.oneLine_definition (hnames h)
    · cases ht
  have hjoined : renderText style helpers (convertAll glyphs style) =
      "\n".intercalate (wantedLines style helpers (convertAll glyphs style)) := by
    refine renderText_eq_intercalate style helpers fun f hf => ?_
    obtain ⟨g, -, hg⟩ := formula_mem_convertAll_iff.mp hf
    exact (hformula hg).1
  rw [render, hjoined, hasLines_intercalate_iff, wantedLines, List.forall_mem_append,
    and_iff_right hhelpers, List.forall_mem_map]
  constructor
  · intro h g hg f hf
    exact (hformula hf).2.mp (h f (formula_mem_convertAll_iff.mpr ⟨g, hg, hf⟩))
  · intro h f hf
    obtain ⟨g, hg, hf⟩ := formula_mem_convertAll_iff.mp hf
    exact (hformula hf).2.mpr (h g hg f hf)

/-! A glyph without a formula may have any label. -/

theorem hasLines_render_text_iff_faultyGlyph :
    let outcomes := convertAll [⟨"a\u00A0b", "M0 0h1", none⟩, ⟨"\n", "M0 0h", none⟩] Style.default
    HasLines (render Style.default true outcomes .text)
      (wantedLines Style.default true outcomes) := by
  refine (hasLines_render_text_iff (fun h => ?_) true _).mpr fun g hg f hf => ?_
  · cases h <;> decide
  · rcases List.mem_cons.mp hg with rfl | hg
    · decide
    · have hnone : (Formula.ofPathData "\n" "M0 0h" Style.default).toOption = none := by
        decide +kernel
      obtain rfl := List.mem_singleton.mp hg
      rw [hf] at hnone
      cases hnone

/-! A font with a line end for a character, whose only formula takes two lines. -/

/-- The font. -/
def lineEndFont : String := "<font><glyph unicode='&#10;' d='M0 0h1'/></font>"

theorem not_hasLines_render_text :
    ¬ ∀ (text : String) (glyphs : List Glyph) (style : Style Float) (helpers : Bool),
      readFont text = .ok glyphs → style.check = .ok () →
      style.quadraticName = Style.default.quadraticName →
      style.cubicName = Style.default.cubicName →
      HasLines (render style helpers (convertAll glyphs style) .text)
        (wantedLines style helpers (convertAll glyphs style)) := by
  intro h
  have hcheck : Style.default.check = .ok () := by
    rw [Style.check, if_neg (by decide +kernel), if_neg (by decide +kernel)]
  have h := h lineEndFont [⟨"\n", "M0 0h1", none⟩] Style.default false (by decide +kernel) hcheck
    rfl rfl
  revert h
  decide +kernel

end PiecewiseGlyph
