import Mathlib.Data.List.Forall2
import PiecewiseGlyph.Proofs.Delivery
import PiecewiseGlyph.Proofs.Grammar
import PiecewiseGlyph.Proofs.NewSettings

/-!
# Choosing glyphs

Glyphs are chosen from a font by their characters, or all of them are wanted.

* `IsFirst` is the first glyph with a label, `Lacks` says that there is none, and `IsFirstMissing`
  is the first character without a glyph;
* `selectGlyphs_eq_ok_iff` and `selectGlyphs_eq_error_iff` say what is chosen by characters, and
  which character is to blame if nothing is;
* `selectGlyphs_labels`: glyphs that can be told apart by their labels are all chosen by them;
* `Selects` is a request for glyphs by their characters, and `run_chooses_glyphs` what it comes to.
-/

namespace PiecewiseGlyph

/-! ## Glyphs of characters -/

/-- The first of some glyphs with a label. -/
def IsFirst (glyphs : List Glyph) (label : String) (g : Glyph) : Prop :=
  ∃ before after, glyphs = before ++ g :: after ∧ g.label = label ∧ ∀ h ∈ before, h.label ≠ label

/-- The first glyphs with the labels of some characters. -/
def AreFirst (glyphs : List Glyph) (cs : List Char) (chosen : List Glyph) : Prop :=
  List.Forall₂ (fun c g => IsFirst glyphs c.toString g) cs chosen

/-- No glyph has a label. -/
def Lacks (glyphs : List Glyph) (label : String) : Prop := ∀ g ∈ glyphs, g.label ≠ label

instance (glyphs : List Glyph) (label : String) : Decidable (Lacks glyphs label) :=
  inferInstanceAs (Decidable (∀ g ∈ glyphs, g.label ≠ label))

/-- The first of some characters that is not the label of a glyph. -/
def IsFirstMissing (glyphs : List Glyph) (cs : List Char) (c : Char) : Prop :=
  ∃ before after, cs = before ++ c :: after ∧ (∀ b ∈ before, ¬ Lacks glyphs b.toString) ∧
    Lacks glyphs c.toString

section Selection

variable {glyphs chosen : List Glyph} {g : Glyph} {label : String} {labels : List String}
  {cs : List Char} {m : MissingGlyph}

theorem findGlyph_eq_ok_iff : findGlyph glyphs label = .ok g ↔ IsFirst glyphs label g := by
  have hfind : findGlyph glyphs label = .ok g ↔ glyphs.find? (·.label == label) = some g := by
    rw [findGlyph]
    cases glyphs.find? (·.label == label) with
    | none => exact ⟨nofun, nofun⟩
    | some h => exact ⟨fun heq => congrArg some (Except.ok.inj heq), fun heq => by cases heq; rfl⟩
  rw [hfind, List.find?_eq_some_iff_append, IsFirst]
  constructor
  · rintro ⟨hlabel, before, after, rfl, hbefore⟩
    exact ⟨before, after, rfl, eq_of_beq hlabel, fun h hh => by simpa using hbefore h hh⟩
  · rintro ⟨before, after, rfl, hlabel, hbefore⟩
    exact ⟨beq_iff_eq.mpr hlabel, before, after, rfl, fun h hh => by simpa using hbefore h hh⟩

theorem findGlyph_eq_error_iff :
    findGlyph glyphs label = .error m ↔ Lacks glyphs label ∧ m = ⟨label⟩ := by
  have hnone : glyphs.find? (·.label == label) = none ↔ Lacks glyphs label := by
    simp [Lacks, List.find?_eq_none]
  rw [findGlyph, ← hnone]
  cases glyphs.find? (·.label == label) with
  | none => exact ⟨fun h => ⟨rfl, (Except.error.inj h).symm⟩, fun ⟨_, h⟩ => h ▸ rfl⟩
  | some g => exact ⟨nofun, nofun⟩

/-- What is not lacking is found. -/
theorem not_lacks_iff : ¬ Lacks glyphs label ↔ ∃ g, findGlyph glyphs label = .ok g := by
  cases h : findGlyph glyphs label with
  | error m => exact iff_of_false (not_not_intro (findGlyph_eq_error_iff.mp h).1) nofun
  | ok g =>
    refine iff_of_true (fun hlacks => ?_) ⟨g, rfl⟩
    cases h.symm.trans (findGlyph_eq_error_iff.mpr ⟨hlacks, rfl⟩)

/-- By characters the first glyph of each is chosen, in the order of the characters. -/
theorem selectGlyphs_eq_ok_iff :
    selectGlyphs glyphs (cs.map Char.toString) = .ok chosen ↔ AreFirst glyphs cs chosen := by
  rw [selectGlyphs, mapM_eq_ok_iff, List.forall₂_map_left_iff, AreFirst]
  simp only [findGlyph_eq_ok_iff]

/-- Nothing is chosen if a character has no glyph, and the first such character is to blame. -/
theorem selectGlyphs_eq_error_iff :
    selectGlyphs glyphs (cs.map Char.toString) = .error m ↔
      ∃ c, IsFirstMissing glyphs cs c ∧ m = ⟨c.toString⟩ := by
  rw [selectGlyphs, List.mapM_map, mapM_eq_error_iff]
  simp only [Function.comp_apply, findGlyph_eq_error_iff, ← not_lacks_iff, IsFirstMissing]
  constructor
  · rintro ⟨before, c, after, hcs, hbefore, hc, hm⟩
    exact ⟨c, ⟨before, after, hcs, hbefore, hc⟩, hm⟩
  · rintro ⟨c, ⟨before, after, hcs, hbefore, hc⟩, hm⟩
    exact ⟨before, c, after, hcs, hbefore, hc, hm⟩

/-- Either there is a glyph for each character, or a character to blame. -/
theorem exists_areFirst_or (glyphs : List Glyph) (cs : List Char) :
    (∃ chosen, AreFirst glyphs cs chosen) ∨ ∃ c, IsFirstMissing glyphs cs c := by
  cases hselect : selectGlyphs glyphs (cs.map Char.toString) with
  | ok chosen => exact .inl ⟨chosen, selectGlyphs_eq_ok_iff.mp hselect⟩
  | error m =>
    obtain ⟨c, hc, -⟩ := selectGlyphs_eq_error_iff.mp hselect
    exact .inr ⟨c, hc⟩

theorem AreFirst.not_lacks (h : AreFirst glyphs cs chosen) :
    ∀ c ∈ cs, ¬ Lacks glyphs c.toString := by
  have hfound : List.Forall₂ (fun c g => ¬ Lacks glyphs c.toString ∧ IsFirst glyphs c.toString g)
      cs chosen :=
    h.imp fun c g hg => ⟨not_lacks_iff.mpr ⟨g, findGlyph_eq_ok_iff.mpr hg⟩, hg⟩
  exact ((List.forall₂_and_left _ _).mp hfound).1

/-- A character is to blame if one has no glyph. -/
theorem exists_isFirstMissing_iff :
    (∃ c, IsFirstMissing glyphs cs c) ↔ ∃ c ∈ cs, Lacks glyphs c.toString := by
  constructor
  · rintro ⟨c, before, after, rfl, -, hc⟩
    exact ⟨c, List.mem_append_cons_self, hc⟩
  · rintro ⟨c, hmem, hc⟩
    rcases exists_areFirst_or glyphs cs with ⟨chosen, hchosen⟩ | hmissing
    · exact absurd hc (hchosen.not_lacks c hmem)
    · exact hmissing

/-- Glyphs that can be told apart by their labels are all chosen by them. -/
theorem selectGlyphs_labels (hlabels : (glyphs.map Glyph.label).Nodup) :
    selectGlyphs glyphs (glyphs.map Glyph.label) = .ok glyphs := by
  rw [selectGlyphs, mapM_eq_ok_iff, List.forall₂_map_left_iff, List.forall₂_same]
  intro g hg
  obtain ⟨before, after, rfl⟩ := List.append_of_mem hg
  refine findGlyph_eq_ok_iff.mpr ⟨before, after, rfl, rfl, fun h hh heq => ?_⟩
  rw [List.map_append, List.map_cons, List.nodup_append] at hlabels
  exact hlabels.2.2 h.label (List.mem_map_of_mem hh) g.label List.mem_cons_self heq

/-- Labels of one character each are the characters of the text that they make. -/
theorem map_toString_join (h : ∀ label ∈ labels, ∃ c : Char, label = c.toString) :
    (String.join labels).toList.map Char.toString = labels := by
  have hsingle : ∀ label ∈ labels, label.toList.map Char.toString = [label] := by
    intro label hlabel
    obtain ⟨c, rfl⟩ := h label hlabel
    rw [Char.toString, String.toList_singleton, List.map_singleton, Char.toString]
  rw [String.toList_join, List.map_flatMap, List.flatMap_congr hsingle, List.flatMap_singleton']

end Selection

/-! ## Requests -/

/-- A font that can be read can still be read where everything was kept. -/
theorem loadFont_of_keeps {t t' : FileTree} {name : String} {glyphs : List Glyph} (h : t.Keeps t')
    (hloaded : loadFont t name = .ok glyphs) : loadFont t' name = .ok glyphs := by
  obtain ⟨text, htext, hglyphs⟩ := bind_eq_ok.mp hloaded
  refine bind_eq_ok.mpr ⟨text, ?_, hglyphs⟩
  exact mapError_eq_ok.mpr (h.read_eq (mapError_eq_ok.mp htext))

/-- The request, for all glyphs. -/
def Arguments.forAll (a : Arguments) : Arguments := { a with all := true, glyphs := none }

/-- The request, for the glyphs of the characters of a text. -/
def Arguments.forCharacters (a : Arguments) (text : String) : Arguments :=
  { a with all := false, glyphs := some text }

section Requests

variable {places : Places} {t : FileTree} {a : Arguments} {glyphs : List Glyph} {text name : String}

/-- It makes sense to ask for all glyphs where it makes sense to ask for some. -/
theorem check_forAll (htext : text.isEmpty = false) :
    a.forAll.check t = (a.forCharacters text).check t := by
  have hchoice : a.forAll.checkChoice = (a.forCharacters text).checkChoice := by
    simp only [Arguments.checkChoice, Arguments.forAll, Arguments.forCharacters, htext]
    rfl
  rw [Arguments.check, Arguments.check, hchoice]
  rfl

/-- A request about a font makes sense if there are no path data and glyphs are chosen in one
way. -/
theorem choice_of_check (hcheck : a.check t = .ok ()) (hnew : a.newConfig = false)
    (hfont : a.font = some name) : a.pathData = none ∧ a.checkChoice = .ok () := by
  rw [Arguments.check, hnew, if_neg Bool.false_ne_true, hfont] at hcheck
  obtain ⟨-, -, hcheck⟩ := bind_eq_ok.mp hcheck
  dsimp only at hcheck
  split at hcheck
  · cases hcheck
  · split at hcheck
    · rw [Arguments.checkPathData, hfont] at hcheck
      cases hcheck
    · rename_i hpathData
      obtain ⟨-, -, hchoice⟩ := bind_eq_ok.mp hcheck
      exact ⟨by simpa using hpathData, hchoice⟩

/-- A font that can be read is listed, or glyphs are chosen from it and prepared. -/
theorem prepareFont_of_loaded {style : Style Float} {helpers : Bool}
    (hloaded : loadFont t name = .ok glyphs) :
    prepareFont t a style helpers name =
      (Work.tell [⟨.info, s!"Loaded {glyphs.length} glyphs from {name}"⟩] >>= fun _ =>
        if a.list then pure ⟨listGlyphs glyphs, 0, glyphs.length⟩
        else Work.of .selection (chooseGlyphs a glyphs) >>= prepareAll a style helpers) := by
  rw [prepareFont, hloaded]
  rfl

/-- All glyphs of a font are prepared as they are by their characters. -/
theorem prepareFont_forAll {style : Style Float} {helpers : Bool}
    (hloaded : loadFont t name = .ok glyphs)
    (hselect : selectGlyphs glyphs (text.toList.map Char.toString) = .ok glyphs) :
    prepareFont t a.forAll style helpers name =
      prepareFont t (a.forCharacters text) style helpers name := by
  have hchoice : chooseGlyphs a.forAll glyphs = chooseGlyphs (a.forCharacters text) glyphs :=
    hselect.symm
  rw [prepareFont_of_loaded hloaded, prepareFont_of_loaded hloaded, hchoice]
  rfl

theorem prepare_forAll (hfont : a.font = some name) (hloaded : loadFont t name = .ok glyphs)
    (htext : text.isEmpty = false)
    (hselect : selectGlyphs glyphs (text.toList.map Char.toString) = .ok glyphs) :
    prepare places t a.forAll = prepare places t (a.forCharacters text) := by
  have hfontAll : a.forAll.font = some name := hfont
  have hfontText : (a.forCharacters text).font = some name := hfont
  rw [prepare, prepare, check_forAll htext, hfontAll, hfontText]
  refine bind_congr fun _ => bind_congr fun settings => bind_congr fun _ => ?_
  dsimp only
  rw [prepareFont_forAll hloaded hselect]
  rfl

/-- Behind their logs, two requests end as they would without. -/
theorem run_congr {b : Arguments} (hlogFile : b.logFile = a.logFile)
    (h : runUnlogged places a (logging places a t).1 =
      runUnlogged places b (logging places a t).1) :
    run places a t = run places b t := by
  rw [run, run, hlogFile]
  rw [logging] at h
  split
  · rename_i hlog
    rw [if_pos hlog, FileTree.Change.fst_of] at h
    rcases hstart : startLog places t with ⟨T, e | ⟨⟩⟩
    · rfl
    · rw [hstart] at h
      dsimp only at h ⊢
      rw [h]
  · rename_i hlog
    rwa [if_neg hlog] at h

/-- **All glyphs.** Glyphs that can be told apart by one character each may be asked for by these
characters as well as altogether. -/
theorem run_forAll (hfont : a.font = some name)
    (hloaded : loadFont (logging places a t).1 name = .ok glyphs) (hglyphs : glyphs ≠ [])
    (hlabels : ∀ g ∈ glyphs, ∃ c : Char, g.label = c.toString)
    (hnodup : (glyphs.map Glyph.label).Nodup) :
    run places a.forAll t =
      run places (a.forCharacters (String.join (glyphs.map Glyph.label))) t := by
  have hcharacters : (String.join (glyphs.map Glyph.label)).toList.map Char.toString =
      glyphs.map Glyph.label :=
    map_toString_join (List.forall_mem_map.mpr hlabels)
  have hnonempty : (String.join (glyphs.map Glyph.label)).isEmpty = false := by
    refine Bool.eq_false_iff.mpr fun hempty => hglyphs ?_
    rw [String.isEmpty_iff.mp hempty] at hcharacters
    exact List.map_eq_nil_iff.mp hcharacters.symm
  have hselect : selectGlyphs glyphs
      ((String.join (glyphs.map Glyph.label)).toList.map Char.toString) = .ok glyphs := by
    rw [hcharacters]
    exact selectGlyphs_labels hnodup
  have hprepare : prepare places (logging places a t).1 a.forAll = _ :=
    prepare_forAll hfont hloaded hnonempty hselect
  have hlogging : logging places a.forAll t = logging places a t := rfl
  refine run_congr rfl ?_
  rw [hlogging, runUnlogged, runUnlogged, convertAndDeliver, convertAndDeliver, hprepare]
  rfl

/-! ## Runs by characters -/

/-- A request for glyphs by the characters of a text: it makes sense, and its settings and its font
can be read. -/
structure Selects (places : Places) (t : FileTree) (a : Arguments) (settings : Option Settings)
    (name : String) (glyphs : List Glyph) (text : String) : Prop where
  accepted : Accepted places t a settings
  noNewConfig : a.newConfig = false
  noList : a.list = false
  font : a.font = some name
  loaded : loadFont t name = .ok glyphs
  characters : a.glyphs = some text

/-- The notices of a run before glyphs are chosen from a font. -/
def earlierNotices (places : Places) (t : FileTree) (a : Arguments) (name : String)
    (glyphs : List Glyph) : List Notice :=
  logNotices places a ++ ((chooseSettings places t a).notices ++
    [⟨.info, s!"Loaded {glyphs.length} glyphs from {name}"⟩])

/-- The run that converts glyphs and delivers what became of them, after earlier notices. -/
def conversion (t : FileTree) (a : Arguments) (settings : Option Settings) (earlier : List Notice)
    (chosen : List Glyph) : Run :=
  let style := a.style settings
  let outcomes := convertAll chosen style
  let failures := outcomes.filterMap Outcome.failure?
  let r := deliver t a.output
    ⟨render style (a.wantsHelpers settings) outcomes a.format, failures.length, outcomes.length⟩
  { r with notices := earlier ++ (outcomes.flatMap Outcome.warnings ++ failures) ++ r.notices }

namespace Selects

variable {settings : Option Settings}

theorem pathData_eq_none (h : Selects places t a settings name glyphs text) : a.pathData = none :=
  (choice_of_check h.accepted.check h.noNewConfig h.font).1

theorem all_eq_false (h : Selects places t a settings name glyphs text) : a.all = false := by
  have hchoice := (choice_of_check h.accepted.check h.noNewConfig h.font).2
  rw [Arguments.checkChoice, h.noList, h.characters] at hchoice
  cases hall : a.all with
  | false => rfl
  | true =>
    rw [hall] at hchoice
    cases hchoice

/-- Glyphs are chosen by the characters. -/
theorem chooseGlyphs_eq (h : Selects places t a settings name glyphs text) :
    chooseGlyphs a glyphs = selectGlyphs glyphs (text.toList.map Char.toString) := by
  rw [chooseGlyphs, h.all_eq_false, if_neg Bool.false_ne_true, Arguments.labels,
    h.characters, Option.getD_some]

/-- The notices come first that are given anyway. -/
theorem prepare_eq (h : Selects places t a settings name glyphs text) :
    prepare places t a =
      ⟨(chooseSettings places t a).notices ++
        (⟨.info, s!"Loaded {glyphs.length} glyphs from {name}"⟩ ::
          (Work.of .selection (selectGlyphs glyphs (text.toList.map Char.toString)) >>=
            prepareAll a (a.style settings) (a.wantsHelpers settings)).notices),
        (Work.of .selection (selectGlyphs glyphs (text.toList.map Char.toString)) >>=
          prepareAll a (a.style settings) (a.wantsHelpers settings)).result⟩ := by
  rw [prepare, h.accepted.check, Work.of_ok_bind, Work.bind_of_eq_ok h.accepted.choice]
  dsimp only
  rw [h.accepted.style, Work.of_ok_bind, h.pathData_eq_none, h.font]
  dsimp only
  rw [prepareFont_of_loaded h.loaded, h.chooseGlyphs_eq, h.noList, if_neg Bool.false_ne_true]
  rfl

end Selects

/-- Glyphs are prepared even if some are faulty. -/
theorem prepareAll_eq (a : Arguments) (style : Style Float) (helpers : Bool) (chosen : List Glyph) :
    prepareAll a style helpers chosen =
      ⟨(convertAll chosen style).flatMap Outcome.warnings ++
          (convertAll chosen style).filterMap Outcome.failure?,
        .ok ⟨render style helpers (convertAll chosen style) a.format,
          ((convertAll chosen style).filterMap Outcome.failure?).length,
          (convertAll chosen style).length⟩⟩ := by
  rw [prepareAll, Work.bind_of_eq_ok rfl]
  exact congrArg (Work.mk · _) (List.append_nil _)

/-- The log has been made, if one is asked for. -/
theorem logging_eq {T : FileTree} (h : logging places a t = (T, true)) :
    (if a.logFile then startLog places t else (t, .ok ())) = (T, .ok ()) := by
  rw [logging] at h
  split at h
  · rename_i hlogFile
    rw [if_pos hlogFile]
    rw [FileTree.Change.of] at h
    obtain ⟨htree, hmade⟩ := Prod.mk.inj h
    exact Prod.ext htree (isOk_eq_true_iff.mp hmade)
  · rename_i hlogFile
    rw [if_neg hlogFile]
    rw [FileTree.Change.skip] at h
    obtain ⟨htree, -⟩ := Prod.mk.inj h
    exact Prod.ext htree rfl

section

variable {T : FileTree} {settings : Option Settings} {chosen : List Glyph}

/-- Glyphs that are chosen are converted. -/
theorem Selects.run_eq_conversion (h : Selects places T a settings name glyphs text)
    (hlog : logging places a t = (T, true))
    (hchosen : selectGlyphs glyphs (text.toList.map Char.toString) = .ok chosen) :
    run places a t = conversion T a settings (earlierNotices places T a name glyphs) chosen := by
  rw [run_eq h.noNewConfig (logging_eq hlog), convertAndDeliver, h.prepare_eq, hchosen,
    Work.of_ok_bind, prepareAll_eq, conversion, earlierNotices]
  simp only [List.append_assoc, List.cons_append, List.nil_append]

/-- Without a choice nothing is converted. -/
theorem Selects.run_eq_error {m : MissingGlyph} (h : Selects places T a settings name glyphs text)
    (hlog : logging places a t = (T, true))
    (hmissing : selectGlyphs glyphs (text.toList.map Char.toString) = .error m) :
    run places a t =
      ⟨T, "", earlierNotices places T a name glyphs, .error (.selection m)⟩ := by
  rw [run_eq h.noNewConfig (logging_eq hlog), convertAndDeliver, h.prepare_eq, hmissing]
  rfl

/-- Only a choice can fail as a choice. -/
theorem result_conversion_ne (earlier : List Notice) (m : MissingGlyph) :
    (conversion T a settings earlier chosen).result ≠ .error (.selection m) := by
  have hresult (d : Delivery) : d.result ≠ .error (.selection m) := by
    rw [Delivery.result]
    split <;> nofun
  rw [conversion]
  dsimp only [deliver]
  split
  · exact hresult _
  · split
    · exact hresult _
    · nofun

/-- A choice fails if a character has no glyph. -/
theorem Selects.exists_error_iff (h : Selects places T a settings name glyphs text)
    (hlog : logging places a t = (T, true)) :
    (∃ m, (run places a t).result = .error (.selection m)) ↔
      ∃ c ∈ text.toList, Lacks glyphs c.toString := by
  rw [← exists_isFirstMissing_iff]
  cases hselect : selectGlyphs glyphs (text.toList.map Char.toString) with
  | ok chosen =>
    rw [h.run_eq_conversion hlog hselect]
    refine iff_of_false (fun ⟨m, hm⟩ => result_conversion_ne _ m hm) fun ⟨c, hc⟩ => ?_
    cases hselect.symm.trans (selectGlyphs_eq_error_iff.mpr ⟨c, hc, rfl⟩)
  | error m =>
    rw [h.run_eq_error hlog hselect]
    obtain ⟨c, hc, -⟩ := selectGlyphs_eq_error_iff.mp hselect
    exact iff_of_true ⟨m, rfl⟩ ⟨c, hc⟩

end

/-- **Choosing glyphs.** A font is read when the log has been made, if one is asked for. If its
glyphs have one character each, all of them different, then asking for all glyphs and asking for
these characters comes to the same. By any characters the first glyph of each is converted, in the
order of the characters, unless one of them has no glyph: then the first such character is named,
and nothing is converted. -/
theorem run_chooses_glyphs (places : Places) (a : Arguments) (t : FileTree) :
    (∀ name glyphs, a.font = some name → loadFont (logging places a t).1 name = .ok glyphs →
      glyphs ≠ [] → (∀ g ∈ glyphs, ∃ c : Char, g.label = c.toString) →
      (glyphs.map Glyph.label).Nodup →
      run places a.forAll t =
        run places (a.forCharacters (String.join (glyphs.map Glyph.label))) t) ∧
    (∀ glyphs text,
      (∀ chosen, selectGlyphs glyphs (a.forCharacters text).labels = .ok chosen ↔
        AreFirst glyphs text.toList chosen) ∧
      ∀ m, selectGlyphs glyphs (a.forCharacters text).labels = .error m ↔
        ∃ c, IsFirstMissing glyphs text.toList c ∧ m = ⟨c.toString⟩) ∧
    ∀ T settings name glyphs text, logging places a t = (T, true) →
      Selects places T a settings name glyphs text →
      ((∃ chosen, AreFirst glyphs text.toList chosen) ∨ ∃ c, IsFirstMissing glyphs text.toList c) ∧
      (∀ chosen, AreFirst glyphs text.toList chosen →
        run places a t = conversion T a settings (earlierNotices places T a name glyphs) chosen) ∧
      (∀ c, IsFirstMissing glyphs text.toList c →
        run places a t =
          ⟨T, "", earlierNotices places T a name glyphs, .error (.selection ⟨c.toString⟩)⟩) ∧
      ((∃ m, (run places a t).result = .error (.selection m)) ↔
        ∃ c ∈ text.toList, Lacks glyphs c.toString) := by
  refine ⟨fun name glyphs => run_forAll, fun glyphs text => ?_,
    fun T settings name glyphs text hlog h => ?_⟩
  · exact ⟨fun chosen => selectGlyphs_eq_ok_iff, fun m => selectGlyphs_eq_error_iff⟩
  · refine ⟨exists_areFirst_or _ _, fun chosen hchosen => ?_, fun c hc => ?_,
      h.exists_error_iff hlog⟩
    · exact h.run_eq_conversion hlog (selectGlyphs_eq_ok_iff.mpr hchosen)
    · exact h.run_eq_error hlog (selectGlyphs_eq_error_iff.mpr ⟨c, hc, rfl⟩)

end Requests

/-! Two fonts: one in which two characters have one glyph each, and one with a ligature and with two
glyphs of one character. -/

/-- The fonts, in the directory in which work is done. -/
def fontsTree : FileTree where
  nodes := [(["work"], .directory),
    (["accents.svg", "work"], .file (.text
      "<font><glyph unicode='é' d='M0 0v5'/><glyph unicode='x' d='M0 0x'/></font>")),
    (["ligatures.svg", "work"], .file (.text
      ("<font><glyph unicode='fi' d='M1 0v5'/><glyph unicode='f' d='M2 0v5'/>" ++
        "<glyph unicode='f' d=''/></font>")))]
  working := ["work"]

/-- What is asked of the first font. -/
def accentsRequest : Arguments :=
  { Arguments.empty with
    font := some "accents.svg", helpers := true, output := some "out.txt", logFile := true }

/-- What is asked of the second font. -/
def ligaturesRequest : Arguments := { Arguments.empty with font := some "ligatures.svg" }

/-- The glyphs of the first font. -/
def accentGlyphs : List Glyph := [⟨"é", "M0 0v5", none⟩, ⟨"x", "M0 0x", none⟩]

/-- The glyphs of the second font. -/
def ligatureGlyphs : List Glyph := [⟨"fi", "M1 0v5", none⟩, ⟨"f", "M2 0v5", none⟩, ⟨"f", "", none⟩]

theorem selects_ligatures {text : String}
    (h : ((ligaturesRequest.forCharacters text).check fontsTree).isOk = true) :
    Selects fontPlaces fontsTree (ligaturesRequest.forCharacters text) none "ligatures.svg"
      ligatureGlyphs text := by
  have hload : Settings.load fontsTree fontPlaces.settingsFile = .ok none :=
    if_neg (by decide +kernel)
  have hchoice : chooseSettings fontPlaces fontsTree ligaturesRequest = ⟨[], .ok none⟩ := by
    rw [chooseSettings, hload]
    rfl
  have hstyle : (ligaturesRequest.style none).check = .ok () :=
    isOk_eq_true_iff.mp (by decide +kernel)
  exact {
    accepted := ⟨isOk_eq_true_iff.mp h, congrArg Work.result hchoice, hstyle⟩
    noNewConfig := rfl
    noList := rfl
    font := rfl
    loaded := by decide +kernel
    characters := rfl }

theorem run_chooses_glyphs_ligatures :
    run fontPlaces accentsRequest.forAll fontsTree =
        run fontPlaces (accentsRequest.forCharacters "éx") fontsTree ∧
      run fontPlaces (ligaturesRequest.forCharacters "ff") fontsTree =
        conversion fontsTree (ligaturesRequest.forCharacters "ff") none
          (earlierNotices fontPlaces fontsTree (ligaturesRequest.forCharacters "ff") "ligatures.svg"
            ligatureGlyphs)
          [⟨"f", "M2 0v5", none⟩, ⟨"f", "M2 0v5", none⟩] ∧
      (run fontPlaces (ligaturesRequest.forCharacters "fi") fontsTree).result =
        .error (.selection ⟨"i"⟩) := by
  have hlogging (text : String) :
      logging fontPlaces (ligaturesRequest.forCharacters text) fontsTree = (fontsTree, true) := rfl
  refine ⟨?_, ?_, ?_⟩
  · obtain ⟨hall, -, -⟩ := run_chooses_glyphs fontPlaces accentsRequest fontsTree
    have hloaded : loadFont fontsTree "accents.svg" = .ok accentGlyphs := by decide +kernel
    have hkeeps := (adds_logging fontPlaces accentsRequest fontsTree).toKeeps
    have hlabels : ∀ g ∈ accentGlyphs, ∃ c : Char, g.label = c.toString := by
      simp only [accentGlyphs, List.forall_mem_cons]
      exact ⟨⟨'é', rfl⟩, ⟨'x', rfl⟩, nofun⟩
    have hjoin : String.join (accentGlyphs.map Glyph.label) = "éx" := by decide +kernel
    rw [← hjoin]
    exact hall "accents.svg" _ rfl (loadFont_of_keeps hkeeps hloaded) (List.cons_ne_nil _ _) hlabels
      (by decide)
  · obtain ⟨-, -, hselects⟩ :=
      run_chooses_glyphs fontPlaces (ligaturesRequest.forCharacters "ff") fontsTree
    have hfirst : IsFirst ligatureGlyphs 'f'.toString ⟨"f", "M2 0v5", none⟩ :=
      ⟨[⟨"fi", "M1 0v5", none⟩], [⟨"f", "", none⟩], rfl, rfl, by decide⟩
    have hchosen : AreFirst ligatureGlyphs "ff".toList
        [⟨"f", "M2 0v5", none⟩, ⟨"f", "M2 0v5", none⟩] := .cons hfirst (.cons hfirst .nil)
    obtain ⟨-, hconversion, -⟩ :=
      hselects _ _ _ _ _ (hlogging _) (selects_ligatures (by decide +kernel))
    exact hconversion _ hchosen
  · obtain ⟨-, -, hselects⟩ :=
      run_chooses_glyphs fontPlaces (ligaturesRequest.forCharacters "fi") fontsTree
    obtain ⟨-, -, hmissing, -⟩ :=
      hselects _ _ _ _ _ (hlogging _) (selects_ligatures (by decide +kernel))
    have hi : IsFirstMissing ligatureGlyphs "fi".toList 'i' :=
      ⟨['f'], [], rfl, List.forall_mem_singleton.mpr (by decide), by decide⟩
    rw [hmissing 'i' hi]
    rfl

end PiecewiseGlyph
