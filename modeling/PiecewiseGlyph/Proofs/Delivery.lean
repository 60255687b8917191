import Mathlib.Data.List.Basic
import PiecewiseGlyph.Glyph
import PiecewiseGlyph.Program.Run
import PiecewiseGlyph.Proofs.Files

/-!
# All or nothing

A run that does not set up new settings prepares one text before it touches anything, and delivers
it to one place or not at all.

* `Work.bind_eq_ok` takes work apart into its steps;
* `Accepted` says which requests are carried out, and `Answer` what is then to be delivered;
  `prepare_eq_ok_iff`: this is what is prepared;
* `Run.Undone` and `Run.Done` are the two ways in which a run can end;
* `run_done_or_undone`: a run ends in one of them, and it is done if there is something to deliver
  and a place for it.
-/

namespace PiecewiseGlyph

/-! ## Work -/

namespace Work

variable {α β ε : Type}

/-- Work succeeds if its steps do. -/
theorem bind_eq_ok {w : Work α} {f : α → Work β} {b : β} :
    (w >>= f).result = .ok b ↔ ∃ a, w.result = .ok a ∧ (f a).result = .ok b := by
  obtain ⟨notices, result⟩ := w
  cases result with
  | error e =>
    constructor
    · intro h
      cases h
    · rintro ⟨a, h, -⟩
      cases h
  | ok a =>
    constructor
    · exact fun h => ⟨a, rfl, h⟩
    · rintro ⟨a', ha, h⟩
      obtain rfl : a = a' := Except.ok.inj ha
      exact h

/-- After a step that succeeds, the notices of the next step follow. -/
theorem bind_of_eq_ok {w : Work α} {a : α} (h : w.result = .ok a) (f : α → Work β) :
    w >>= f = ⟨w.notices ++ (f a).notices, (f a).result⟩ := by
  obtain ⟨notices, result⟩ := w
  obtain rfl : result = .ok a := h
  rfl

theorem of_ok_bind (error : ε → RunError) (a : α) (f : α → Work β) :
    of error (.ok a) >>= f = f a :=
  rfl

theorem pure_eq_ok {a b : α} : (pure a : Work α).result = .ok b ↔ a = b :=
  ⟨Except.ok.inj, congrArg _⟩

/-- Telling cannot fail. -/
theorem tell_eq_ok (notices : List Notice) (u : Unit) :
    (Work.tell notices).result = .ok u ↔ True :=
  iff_true_intro rfl

theorem of_eq_ok {error : ε → RunError} {result : Except ε α} {a : α} :
    (Work.of error result).result = .ok a ↔ result = .ok a := by
  cases result with
  | error e => exact ⟨nofun, nofun⟩
  | ok b => exact ⟨fun h => congrArg _ (Except.ok.inj h), fun h => congrArg _ (Except.ok.inj h)⟩

end Work

/-! ## What is asked for -/

/-- A request makes sense, its settings can be read, and formulas in its style have a meaning. -/
structure Accepted (places : Places) (t : FileTree) (a : Arguments) (settings : Option Settings) :
    Prop where
  check : a.check t = .ok ()
  choice : (chooseSettings places t a).result = .ok settings
  style : (a.style settings).check = .ok ()

/-- What a request is answered with: the listing of a font, the formula of path data, or what became
of the glyphs that were chosen from a font. In the last case some of them may be missing. -/
inductive Answer (t : FileTree) (a : Arguments) (style : Style Float) (helpers : Bool) :
    Delivery → Prop
  | listing {name : String} {glyphs : List Glyph} (noPathData : a.pathData = none)
    (font : a.font = some name) (loaded : loadFont t name = .ok glyphs) (list : a.list = true) :
    Answer t a style helpers ⟨listGlyphs glyphs, 0, glyphs.length⟩
  | pathData {data : String} {formula : Formula} (given : a.pathData = some data)
    (made : Formula.ofPathData (a.label.getD "") data style = .ok formula) :
    Answer t a style helpers ⟨render style helpers [⟨a.label.getD "", .ok formula⟩] a.format, 0, 1⟩
  | font {name : String} {glyphs chosen : List Glyph} (noPathData : a.pathData = none)
    (font : a.font = some name) (loaded : loadFont t name = .ok glyphs) (noList : a.list = false)
    (choice : chooseGlyphs a glyphs = .ok chosen) :
    Answer t a style helpers
      ⟨render style helpers (convertAll chosen style) a.format,
        chosen.countP fun g => !(Formula.ofPathData g.label g.pathData style).isOk, chosen.length⟩

/-- A notice is given of each faulty glyph. -/
theorem length_failures (glyphs : List Glyph) (style : Style Float) :
    ((convertAll glyphs style).filterMap Outcome.failure?).length =
      glyphs.countP fun g => !(Formula.ofPathData g.label g.pathData style).isOk := by
  rw [convertAll, List.filterMap_map, List.length_filterMap_eq_countP]
  refine List.countP_congr fun g _ => ?_
  rw [Function.comp_apply, Outcome.failure?, convert]
  cases Formula.ofPathData g.label g.pathData style <;> rfl

section Preparation

variable {places : Places} {t : FileTree} {a : Arguments} {style : Style Float} {helpers : Bool}
  {d : Delivery}

theorem prepareOne_eq_ok_iff {data : String} :
    (prepareOne a style helpers data).result = .ok d ↔
      ∃ formula, Formula.ofPathData (a.label.getD "") data style = .ok formula ∧
        ⟨render style helpers [⟨a.label.getD "", .ok formula⟩] a.format, 0, 1⟩ = d := by
  simp only [prepareOne, Work.bind_eq_ok, Work.tell_eq_ok, Work.of_eq_ok, Work.pure_eq_ok, true_and,
    exists_const]

theorem prepareAll_eq_ok_iff {glyphs : List Glyph} :
    (prepareAll a style helpers glyphs).result = .ok d ↔
      ⟨render style helpers (convertAll glyphs style) a.format,
        glyphs.countP fun g => !(Formula.ofPathData g.label g.pathData style).isOk,
        glyphs.length⟩ = d := by
  have hlength : (convertAll glyphs style).length = glyphs.length := List.length_map _
  simp only [prepareAll, Work.bind_eq_ok, Work.tell_eq_ok, Work.pure_eq_ok, length_failures,
    hlength, true_and, exists_const]

theorem prepareFont_eq_ok_iff {name : String} :
    (prepareFont t a style helpers name).result = .ok d ↔
      ∃ glyphs, loadFont t name = .ok glyphs ∧
        if a.list then ⟨listGlyphs glyphs, 0, glyphs.length⟩ = d
        else ∃ chosen, chooseGlyphs a glyphs = .ok chosen ∧
          (prepareAll a style helpers chosen).result = .ok d := by
  simp only [prepareFont, Work.bind_eq_ok, Work.tell_eq_ok, Work.of_eq_ok, true_and, exists_const]
  refine exists_congr fun glyphs => and_congr_right fun _ => ?_
  split
  · exact Work.pure_eq_ok
  · simp only [Work.bind_eq_ok, Work.of_eq_ok]

/-- What is prepared is the answer to a request that is accepted. -/
theorem prepare_eq_ok_iff {places : Places} :
    (prepare places t a).result = .ok d ↔
      ∃ settings, Accepted places t a settings ∧
        Answer t a (a.style settings) (a.wantsHelpers settings) d := by
  simp only [prepare, Work.bind_eq_ok, Work.of_eq_ok]
  constructor
  · rintro ⟨⟨⟩, hcheck, settings, hchoice, ⟨⟩, hstyle, h⟩
    refine ⟨settings, ⟨hcheck, hchoice, hstyle⟩, ?_⟩
    split at h
    · rename_i data hdata
      obtain ⟨formula, hmade, rfl⟩ := prepareOne_eq_ok_iff.mp h
      exact .pathData hdata hmade
    · rename_i hdata
      split at h
      · rename_i name hname
        obtain ⟨glyphs, hloaded, h⟩ := prepareFont_eq_ok_iff.mp h
        split at h
        · rename_i hlist
          exact h ▸ .listing hdata hname hloaded hlist
        · rename_i hlist
          obtain ⟨chosen, hchosen, h⟩ := h
          exact prepareAll_eq_ok_iff.mp h ▸
            .font hdata hname hloaded (by simpa using hlist) hchosen
      · cases h
  · rintro ⟨settings, haccepted, hanswer⟩
    refine ⟨(), haccepted.check, settings, haccepted.choice, (), haccepted.style, ?_⟩
    cases hanswer with
    | pathData hdata hmade =>
      simp only [hdata]
      exact prepareOne_eq_ok_iff.mpr ⟨_, hmade, rfl⟩
    | listing hdata hname hloaded hlist =>
      simp only [hdata, hname]
      exact prepareFont_eq_ok_iff.mpr ⟨_, hloaded, by rw [if_pos hlist]⟩
    | font hdata hname hloaded hlist hchosen =>
      simp only [hdata, hname]
      refine prepareFont_eq_ok_iff.mpr ⟨_, hloaded, ?_⟩
      rw [hlist, if_neg Bool.false_ne_true]
      exact ⟨_, hchosen, prepareAll_eq_ok_iff.mpr rfl⟩

end Preparation

/-! ## How runs end -/

/-- Nothing has come of a run: it failed, printed nothing and left the files as they were. -/
structure Run.Undone (r : Run) (t : FileTree) : Prop where
  failed : ∃ e, r.result = .error e
  printed : r.printed = ""
  tree : r.tree = t

/-- One text has come of a run: it was printed, or it is what a file now holds, and nothing else. -/
def Run.Delivered (r : Run) (t : FileTree) (text : String) : Option String → Prop
  | none => r.printed = text ∧ r.tree = t
  | some name =>
    r.printed = "" ∧ r.tree.read name = .ok text ∧ r.tree.working = t.working ∧
      ∃ l, t.target name = .ok l ∧ ∀ k, k ≠ l → r.tree.find? k = t.find? k

/-- A run has delivered what was prepared, and failed only if glyphs are missing from it. -/
structure Run.Done (r : Run) (t : FileTree) (output : Option String) (d : Delivery) : Prop where
  delivered : r.Delivered t (d.text ++ "\n") output
  whole : d.failed = 0 → r.result = .ok ()
  incomplete : d.failed ≠ 0 → ∃ e, r.result = .error e ∧
    e.chain = [s!"{d.failed} of {d.total} glyphs could not be converted"]

/-- The notice of a log that was started. -/
def logNotices (places : Places) (a : Arguments) : List Notice :=
  if a.logFile then [⟨.info, s!"Logging to {quoteName places.logFile}"⟩] else []

section Running

variable {places : Places} {a : Arguments} {t : FileTree} {d : Delivery}

/-- A text for which there is a place is delivered. -/
theorem done_deliver {output : Option String}
    (hplace : ∀ name, output = some name → ∃ l, t.target name = .ok l) :
    (deliver t output d).Done t output d := by
  cases output with
  | none =>
    refine ⟨⟨rfl, rfl⟩, fun h => if_pos h, fun h => ⟨_, if_neg h, rfl⟩⟩
  | some name =>
    obtain ⟨l, hl⟩ := hplace name rfl
    have hwrite : t.write name (d.text ++ "\n") =
        .ok (t.insert l (.file (.text (d.text ++ "\n")))) :=
      FileTree.write_eq_ok_iff.mpr ⟨l, hl, rfl⟩
    simp only [deliver, hwrite]
    refine ⟨⟨rfl, FileTree.read_of_write hwrite, rfl, l, hl, fun k hk => ?_⟩, fun h => if_pos h,
      fun h => ⟨_, if_neg h, rfl⟩⟩
    rw [FileTree.find?_of_write hl hwrite, if_neg hk]

/-- A text for which there is no place leaves no trace. -/
theorem undone_deliver {name : String} {e : FileError} (h : t.target name = .error e) :
    (deliver t (some name) d).Undone t := by
  have hwrite : t.write name (d.text ++ "\n") = .error e := by
    rw [FileTree.write, h]
    rfl
  simp only [deliver, hwrite]
  exact ⟨⟨_, rfl⟩, rfl, rfl⟩

/-- What is prepared is delivered. -/
theorem done_convertAndDeliver (h : (prepare places t a).result = .ok d)
    (hplace : ∀ name, a.output = some name → ∃ l, t.target name = .ok l) :
    (convertAndDeliver places a t).Done t a.output d := by
  have hdone : (deliver t a.output d).Done t a.output d := done_deliver hplace
  simp only [convertAndDeliver, h]
  exact ⟨hdone.delivered, hdone.whole, hdone.incomplete⟩

/-- Where nothing can be prepared, nothing is done. -/
theorem undone_convertAndDeliver {e : RunError} (h : (prepare places t a).result = .error e) :
    (convertAndDeliver places a t).Undone t := by
  simp only [convertAndDeliver, h]
  exact ⟨⟨e, rfl⟩, rfl, rfl⟩

theorem done_or_undone_convertAndDeliver (places : Places) (a : Arguments) (t : FileTree) :
    (convertAndDeliver places a t).Undone t ∨
      ∃ d, (prepare places t a).result = .ok d ∧
        (convertAndDeliver places a t).Done t a.output d := by
  cases hprepare : (prepare places t a).result with
  | error e => exact .inl (undone_convertAndDeliver hprepare)
  | ok d =>
    by_cases hplace : ∀ name, a.output = some name → ∃ l, t.target name = .ok l
    · exact .inr ⟨d, rfl, done_convertAndDeliver hprepare hplace⟩
    · -- a place is missing only if the name of a file leads to none
      obtain ⟨name, hname, hplace⟩ : ∃ name, a.output = some name ∧
          ¬ ∃ l, t.target name = .ok l := by
        simpa using hplace
      cases htarget : t.target name with
      | ok l => exact absurd ⟨l, htarget⟩ hplace
      | error e =>
        have hundone : (deliver t a.output d).Undone t := hname ▸ undone_deliver htarget
        simp only [convertAndDeliver, hprepare]
        exact .inl ⟨hundone.failed, hundone.printed, hundone.tree⟩

/-- Behind the notice of its log, a run prepares and delivers. -/
theorem run_eq {T : FileTree} (hnew : a.newConfig = false)
    (hlog : (if a.logFile then startLog places t else (t, .ok ())) = (T, .ok ())) :
    run places a t =
      { convertAndDeliver places a T with
        notices := logNotices places a ++ (convertAndDeliver places a T).notices } := by
  have hunlogged : ∀ t, runUnlogged places a t = convertAndDeliver places a t := fun t => by
    rw [runUnlogged, hnew, if_neg Bool.false_ne_true]
  rw [run, logNotices]
  split at hlog
  · rename_i h
    rw [if_pos h, if_pos h, hlog]
    simp only [hunlogged]
    rfl
  · rename_i h
    obtain ⟨rfl, -⟩ := Prod.mk.inj hlog
    rw [if_neg h, if_neg h, hunlogged]
    rfl

/-- The log apart, a run prepares and delivers. -/
theorem exists_run_eq {T : FileTree} (hnew : a.newConfig = false)
    (hlog : (if a.logFile then startLog places t else (t, .ok ())) = (T, .ok ())) :
    ∃ notices, run places a t = { convertAndDeliver places a T with notices } :=
  ⟨_, run_eq hnew hlog⟩

/-- **All or nothing.** A run that does not set up new settings, and whose log has been made if one
was asked for, either comes to nothing, or delivers the answer to the request, to one place. It does
deliver the answer, if there is one and a place for it. Path data that have no formula have no
answer. -/
theorem run_done_or_undone {T : FileTree} (hnew : a.newConfig = false)
    (hlog : (if a.logFile then startLog places t else (t, .ok ())) = (T, .ok ())) :
    ((run places a t).Undone T ∨
      ∃ settings d, Accepted places T a settings ∧
        Answer T a (a.style settings) (a.wantsHelpers settings) d ∧
        (run places a t).Done T a.output d) ∧
    (∀ settings d, Accepted places T a settings →
      Answer T a (a.style settings) (a.wantsHelpers settings) d →
      (∀ name, a.output = some name → ∃ l, T.target name = .ok l) →
      (run places a t).Done T a.output d) ∧
    ∀ data style e, a.pathData = some data →
      Formula.ofPathData (a.label.getD "") data style = .error e → (run places a t).Undone T := by
  obtain ⟨notices, hrun⟩ := exists_run_eq hnew hlog
  have hundone : (convertAndDeliver places a T).Undone T → (run places a t).Undone T := by
    rw [hrun]
    exact fun h => ⟨h.failed, h.printed, h.tree⟩
  have hdone : ∀ d, (convertAndDeliver places a T).Done T a.output d →
      (run places a t).Done T a.output d := by
    rw [hrun]
    exact fun d h => ⟨h.delivered, h.whole, h.incomplete⟩
  refine ⟨?_, fun settings d haccepted hanswer hplace => ?_, fun data style e hdata he => ?_⟩
  · rcases done_or_undone_convertAndDeliver places a T with h | ⟨d, hprepare, h⟩
    · exact .inl (hundone h)
    · obtain ⟨settings, haccepted, hanswer⟩ := prepare_eq_ok_iff.mp hprepare
      exact .inr ⟨settings, d, haccepted, hanswer, hdone d h⟩
  · exact hdone d (done_convertAndDeliver
      (prepare_eq_ok_iff.mpr ⟨settings, haccepted, hanswer⟩) hplace)
  · refine hundone ?_
    cases hprepare : (prepare places T a).result with
    | error e => exact undone_convertAndDeliver hprepare
    | ok d =>
      obtain ⟨settings, -, hanswer⟩ := prepare_eq_ok_iff.mp hprepare
      cases hanswer with
      | pathData given made =>
        -- the style it fails in need not be the style in use, but whether it fails is not a matter
        -- of style
        cases given.symm.trans hdata
        obtain ⟨outline, houtline, -⟩ := Formula.ofPathData_eq_ok_iff.mp made
        cases he.symm.trans (Formula.ofPathData_eq_ok_iff.mpr ⟨outline, houtline, rfl⟩)
      | listing noPathData => rw [noPathData] at hdata; cases hdata
      | font noPathData => rw [noPathData] at hdata; cases hdata

end Running

/-! A font with a faulty glyph, converted into a file beside it, with a log. -/

/-- The system. -/
def fontPlaces : Places := ⟨"/home", "2026-01-31"⟩

/-- The font, in the directory in which work is done. -/
def fontTree : FileTree where
  nodes := [(["work"], .directory),
    (["f.svg", "work"], .file (.text
      "<font><glyph unicode='i' d='M0 0v5'/><glyph unicode='x' d='M0 0x'/></font>"))]
  working := ["work"]

/-- The request. -/
def fontRequest : Arguments :=
  { Arguments.empty with
    font := some "f.svg", all := true, output := some "out.txt", logFile := true }

/-- The font with the log made. -/
def loggedTree : FileTree := (startLog fontPlaces fontTree).1

theorem run_done_or_undone_faultyGlyph :
    ∃ settings d, Accepted fontPlaces loggedTree fontRequest settings ∧
      Answer loggedTree fontRequest (fontRequest.style settings)
        (fontRequest.wantsHelpers settings) d ∧
      (run fontPlaces fontRequest fontTree).Done loggedTree (some "out.txt") d := by
  have hchanged : (run fontPlaces fontRequest fontTree).tree ≠ loggedTree := by decide +kernel
  have hlog : (if fontRequest.logFile then startLog fontPlaces fontTree else (fontTree, .ok ())) =
      (loggedTree, .ok ()) := by decide +kernel
  obtain ⟨hends, -, -⟩ := run_done_or_undone rfl hlog
  rcases hends with hundone | hdone
  · exact absurd hundone.tree hchanged
  · exact hdone

end PiecewiseGlyph
