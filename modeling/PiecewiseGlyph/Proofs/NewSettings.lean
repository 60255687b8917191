import PiecewiseGlyph.Program.Run
import PiecewiseGlyph.Proofs.Settings
import PiecewiseGlyph.Proofs.Trees

/-!
# New settings

A request for new settings writes the built-in choices to a file, unless the file is there. The file
is looked for before the directories on the way to it are made. So a name that goes up may lead
nowhere at first and to a file later, which is then written over. Nothing else is lost.

* `FileTree.Change` is a change of a tree that may fail on the way; it `IsStable` if what was done
  once is not done again;
* `newSettings` is the change that the request makes (`run_newConfig`): at first `preparations`,
  which add directories and a log (`adds_preparations`), and then the settings
  (`settingsFile_cases`);
* `WritesOver` is the one way to lose what a file holds: a file is named
  (`WritesOver.config_ne_none`), by a name that goes up (`WritesOver.goes_up`);
* `makesNewSettings_run` is the main result, and `not_keeps_files` a file that is lost.
-/

namespace PiecewiseGlyph

/-! ## Changes -/

namespace FileTree

/-- A change of a tree, and whether all of it was made. -/
abbrev Change := FileTree → FileTree × Bool

namespace Change

variable {c d : Change} {t : FileTree}

def skip : Change := fun t => (t, true)

/-- One change, and then another, if all of the first was made. -/
def andThen (c d : Change) : Change := fun t => if (c t).2 then d (c t).1 else c t

/-- Work on a tree that may fail. -/
def of {ε : Type} (work : FileTree → FileTree × Except ε Unit) : Change := fun t =>
  ((work t).1, (work t).2.isOk)

theorem fst_of {ε : Type} (work : FileTree → FileTree × Except ε Unit) (t : FileTree) :
    (of work t).1 = (work t).1 :=
  rfl

theorem eq_of_snd {ε : Type} {work : FileTree → FileTree × Except ε Unit} {t : FileTree}
    (h : (of work t).2 = true) : work t = ((work t).1, .ok ()) :=
  Prod.ext rfl (isOk_eq_true_iff.mp h)

def ofSetup (work : FileTree → Setup) : Change := fun t => ((work t).tree, (work t).result.isOk)

theorem andThen_assoc (c d e : Change) : (c.andThen d).andThen e = c.andThen (d.andThen e) := by
  funext t
  cases h : (c t).2 <;> simp [andThen, h]

theorem andThen_eq (h : (c t).2 = true) (d : Change) : c.andThen d t = d (c t).1 := if_pos h

theorem snd_andThen : (c.andThen d t).2 = true ↔ (c t).2 = true ∧ (d (c t).1).2 = true := by
  cases h : (c t).2 <;> simp [andThen, h]

theorem adds_andThen {new : Location → Node → Prop} (hc : t.Adds (c t).1 new)
    (hd : t.Adds (d (c t).1).1 new) : t.Adds (c.andThen d t).1 new := by
  rw [andThen]
  split
  · exact hd
  · exact hc

/-- Nothing gets lost, and what was done once is not done again, whatever has grown since. -/
structure IsStable (c : Change) : Prop where
  grows : ∀ t : FileTree, t.Grows (c t).1
  again : ∀ {t t' : FileTree}, (c t).2 = true → (c t).1.Grows t' → c t' = (t', true)

namespace IsStable

theorem skip : skip.IsStable := ⟨fun t => (Keeps.refl t).grows, fun _ _ => rfl⟩

theorem andThen (hc : c.IsStable) (hd : d.IsStable) : (c.andThen d).IsStable where
  grows t := by
    rw [Change.andThen]
    split
    · exact (hc.grows t).trans (hd.grows _)
    · exact hc.grows t
  again {t t'} h hgrows := by
    obtain ⟨hfirst, hsecond⟩ := snd_andThen.mp h
    rw [andThen_eq hfirst] at hgrows
    have hagain : c t' = (t', true) := hc.again hfirst ((hd.grows _).trans hgrows)
    rw [andThen_eq (by rw [hagain]), hagain]
    exact hd.again hsecond hgrows

theorem of {ε : Type} {work : FileTree → FileTree × Except ε Unit}
    (grows : ∀ t : FileTree, t.Grows (work t).1)
    (again : ∀ {t t' t'' : FileTree}, work t = (t', .ok ()) → t'.Grows t'' →
      work t'' = (t'', .ok ())) :
    (Change.of work).IsStable where
  grows := grows
  again {t t'} h hgrows := by
    have hwork : work t' = (t', .ok ()) := again (eq_of_snd h) hgrows
    rw [Change.of, hwork]
    rfl

/-- Doing it twice is doing it once. -/
theorem twice (hc : c.IsStable) (h : (c t).2 = true) : c (c t).1 = ((c t).1, true) :=
  hc.again h (Keeps.refl _).grows

end IsStable

end Change

end FileTree

open FileTree

/-! ## The parts of the request -/

section Parts

variable {places : Places} {t t' t'' : FileTree}

/-- All that starting a log can do: the directory is made, and the log, if it is not there. -/
theorem startLog_cases (places : Places) (t : FileTree) :
    (∃ e, startLog places t = ((t.createDirectories places.logDirectory).1, .error e)) ∨
      ∃ made, t.createDirectories places.logDirectory = (made, .ok ()) ∧
        (made.exists places.logFile = true ∧ startLog places t = (made, .ok ()) ∨
          made.exists places.logFile = false ∧
            ∃ t', made.write places.logFile "" = .ok t' ∧ startLog places t = (t', .ok ())) := by
  -- `rw` would make a lemma first, in which the directories are made by evaluation
  unfold startLog
  rcases hmade : t.createDirectories places.logDirectory with ⟨made, e | ⟨⟩⟩
  · exact .inl ⟨e, rfl⟩
  · dsimp only
    split
    · rename_i hseen
      exact .inr ⟨made, rfl, .inl ⟨hseen, rfl⟩⟩
    · rename_i hunseen
      rcases hwrite : made.write places.logFile "" with e | t'
      · exact .inl ⟨e, rfl⟩
      · exact .inr ⟨made, rfl, .inr ⟨Bool.eq_false_iff.mpr hunseen, t', hwrite, rfl⟩⟩

/-- The directory for logs and the log of the day are added, if anything. -/
theorem adds_startLog (places : Places) (t : FileTree) :
    t.Adds (startLog places t).1 fun k n =>
      t.OnName places.logDirectory k n ∨ k = t.destination (.ofName places.logFile) := by
  have hdirectory := (t.adds_createDirectories places.logDirectory).mono fun k n hk =>
    (.inl hk : t.OnName places.logDirectory k n ∨ k = t.destination (.ofName places.logFile))
  rcases startLog_cases places t with ⟨e, h⟩ | ⟨made, hmade, ⟨-, h⟩ | ⟨hunseen, t', hwrite, h⟩⟩
  · rw [h]
    dsimp only
    exact hdirectory
  · rw [hmade] at hdirectory
    rw [h]
    exact hdirectory
  · rw [hmade] at hdirectory
    rw [h]
    obtain ⟨l, hl, rfl⟩ := write_eq_ok_iff.mp hwrite
    refine hdirectory.trans (adds_insert (find?_target_of_not_exists hunseen hl) (.inr ?_))
    rw [eq_destination (target_eq_ok_iff.mp hl).1, hdirectory.grows.destination_eq]

/-- A log that was started is not started again. -/
theorem startLog_again (h : startLog places t = (t', .ok ())) (hgrows : t'.Grows t'') :
    startLog places t'' = (t'', .ok ()) := by
  suffices hstarted : ∃ made, t.createDirectories places.logDirectory = (made, .ok ()) ∧
      made.Grows t' ∧ t'.exists places.logFile = true by
    obtain ⟨made, hmade, hmore, hseen⟩ := hstarted
    unfold startLog
    rw [createDirectories_again hmade (hmore.trans hgrows)]
    exact if_pos (hgrows.exists_eq hseen)
  rcases startLog_cases places t with ⟨e, h'⟩ | ⟨made, hmade, ⟨hseen, h'⟩ | ⟨-, t₁, hwrite, h'⟩⟩
  · rw [h'] at h
    cases (Prod.mk.inj h).2
  · rw [h'] at h
    cases h
    exact ⟨_, hmade, (Keeps.refl _).grows, hseen⟩
  · rw [h'] at h
    cases h
    have hseen := exists_of_read (read_of_write hwrite)
    obtain ⟨l, hl, rfl⟩ := write_eq_ok_iff.mp hwrite
    exact ⟨made, hmade, grows_insert (target_eq_ok_iff.mp hl).2.2 _, hseen⟩

/-- All that writing a settings file can do: nothing where there is something by the name, and else
the directories are made, and the file is written if they could be made. -/
theorem settingsFile_cases (name : String) (t : FileTree) :
    (t.exists name = true ∧ (Setup.settingsFile name t).result = .ok () ∧
        (Setup.settingsFile name t).tree = t) ∨
      (t.exists name = false ∧ (Setup.settingsFile name t).result.isOk = false ∧
        (Setup.settingsFile name t).tree = (t.createParents name).1) ∨
      t.exists name = false ∧ (Setup.settingsFile name t).result = .ok () ∧
        Settings.example.save t name = ((Setup.settingsFile name t).tree, .ok ()) := by
  rw [Setup.settingsFile]
  split
  · rename_i hseen
    exact .inl ⟨hseen, rfl, rfl⟩
  · rename_i hunseen
    split
    · rename_i t' hsave
      exact .inr (.inr ⟨Bool.eq_false_iff.mpr hunseen, rfl, hsave⟩)
    · rename_i t' e hsave
      exact .inr (.inl ⟨Bool.eq_false_iff.mpr hunseen, rfl, Settings.tree_of_save_eq_error hsave⟩)

end Parts

/-! ## The request -/

/-- The settings file that a request is about. -/
def Arguments.settingsName (a : Arguments) (places : Places) : String :=
  a.config.getD places.settingsFile

/-- The log is made, if one is asked for. -/
def logging (places : Places) (a : Arguments) : Change :=
  if a.logFile then .of (startLog places) else .skip

/-- The directories for the configuration are made, unless a file was named. -/
def configuring (places : Places) (a : Arguments) : Change :=
  if a.config.isSome then .skip
  else
    (Change.of (createDirectories · places.configDirectory)).andThen
      (.of (createDirectories · places.logDirectory))

/-- What is made before the settings file is looked for. -/
def preparations (places : Places) (a : Arguments) : Change :=
  (logging places a).andThen (configuring places a)

/-- What a request for new settings does. -/
def newSettings (places : Places) (a : Arguments) : Change :=
  (preparations places a).andThen (.ofSetup (Setup.settingsFile (a.settingsName places)))

section Request

variable {places : Places} {a : Arguments} {t : FileTree}

theorem ofSetup_andThen (first : FileTree → Setup) (next : FileTree → Setup) :
    Change.ofSetup (fun t => (first t).andThen next) =
      (Change.ofSetup first).andThen (.ofSetup next) := by
  funext t
  rw [Change.andThen, Change.ofSetup, Change.ofSetup]
  dsimp only
  cases hresult : (first t).result <;> simp only [Setup.andThen, hresult] <;> rfl

theorem ofSetup_directory (what name : String) :
    Change.ofSetup (Setup.directory what name) = .of (createDirectories · name) := by
  funext t
  rcases hmade : t.createDirectories name with ⟨made, e | ⟨⟩⟩ <;>
    simp only [Change.ofSetup, Change.of, Setup.directory, hmade] <;> rfl

theorem setUp_eq (places : Places) (a : Arguments) (t : FileTree) :
    ((setUp places a.config t).tree, (setUp places a.config t).result.isOk) =
      (configuring places a).andThen (.ofSetup (Setup.settingsFile (a.settingsName places))) t := by
  rw [configuring, Arguments.settingsName]
  cases a.config with
  | some name =>
    simp only [setUp, isOk_mapError]
    rfl
  | none =>
    have hsetup : Change.ofSetup (Setup.configDirectory places) =
        ((Change.of (createDirectories · places.configDirectory)).andThen
          (.of (createDirectories · places.logDirectory))).andThen
            (.ofSetup (Setup.settingsFile places.settingsFile)) := by
      rw [Change.andThen_assoc, ← ofSetup_directory "config", ← ofSetup_directory "logs",
        ← ofSetup_andThen, ← ofSetup_andThen]
      rfl
    simp only [setUp, isOk_mapError]
    exact congrFun hsetup t

/-- Setting up comes after the log, if one is asked for. -/
theorem run_newConfig (places : Places) (h : a.newConfig = true) (t : FileTree) :
    ((run places a t).tree, (run places a t).result.isOk) = newSettings places a t := by
  have hunlogged (t : FileTree) : runUnlogged places a t = setUp places a.config t := if_pos h
  rw [newSettings, preparations, Change.andThen_assoc, logging, run]
  split
  · rw [Change.andThen, Change.of]
    rcases startLog places t with ⟨logged, e | ⟨⟩⟩
    · rfl
    · dsimp only
      rw [hunlogged]
      exact setUp_eq places a logged
  · rw [hunlogged]
    exact setUp_eq places a t

/-! ### What is prepared -/

/-- A place of the configuration: a directory on the way to it or to the logs, or the log of the
day. -/
def IsPrepared (places : Places) (t : FileTree) (k : Location) (n : Node) : Prop :=
  t.OnName places.configDirectory k n ∨ t.OnName places.logDirectory k n ∨
    k = t.destination (.ofName places.logFile)

theorem isPrepared_eq {t' : FileTree} (h : t.Grows t') (places : Places) :
    IsPrepared places t' = IsPrepared places t := by
  funext k n
  rw [IsPrepared, IsPrepared, h.onName_eq, h.onName_eq, h.destination_eq]

theorem adds_logging (places : Places) (a : Arguments) (t : FileTree) :
    t.Adds (logging places a t).1 (IsPrepared places t) := by
  rw [logging]
  split
  · rw [Change.fst_of]
    exact (adds_startLog places t).mono fun k n => .inr
  · exact .refl t _

theorem adds_configuring (places : Places) (a : Arguments) (t : FileTree) :
    t.Adds (configuring places a t).1 (IsPrepared places t) := by
  rw [configuring]
  split
  · exact .refl t _
  · have hconfig : t.Adds (t.createDirectories places.configDirectory).1 (IsPrepared places t) :=
      (Adds.refl t _).createDirectories fun k n => .inl
    refine Change.adds_andThen ?_ ?_
    · rwa [Change.fst_of]
    · rw [Change.fst_of, Change.fst_of]
      exact hconfig.createDirectories fun k n hk => .inr (.inl hk)

/-- Nothing is added but directories and the log. -/
theorem adds_preparations (places : Places) (a : Arguments) (t : FileTree) :
    t.Adds (preparations places a t).1 (IsPrepared places t) := by
  have hlog := adds_logging places a t
  have hconfig := adds_configuring places a (logging places a t).1
  rw [isPrepared_eq hlog.grows] at hconfig
  exact Change.adds_andThen hlog (hlog.trans hconfig)

theorem isName_settingsFile : Route.IsName "settings.json" :=
  ⟨by decide, by decide, by decide, by decide⟩

theorem isName_logDirectory : Route.IsName "logs" := ⟨by decide, by decide, by decide, by decide⟩

theorem isName_logFile {date : String} (h : '/' ∉ date.toList) :
    Route.IsName s!"glyph-desmos-{date}.log" := by
  have hlist : s!"glyph-desmos-{date}.log".toList =
      'g' :: ("lyph-desmos-".toList ++ date.toList ++ ".log".toList) := by
    simp [toString, String.toList_append]
  refine ⟨?_, ?_, ?_, ?_⟩
  · intro hempty
    rw [hempty] at hlist
    cases hlist
  · rw [hlist]
    simpa using h
  · intro hdot
    rw [hdot] at hlist
    cases hlist
  · intro hdots
    rw [hdots] at hlist
    cases hlist

/-- The settings are at none of the places. -/
theorem not_isPrepared (hdate : '/' ∉ places.date.toList)
    (hup : ".." ∉ (Route.ofName places.settingsFile).steps) (n : Node) :
    ¬ IsPrepared places t (t.destination (.ofName places.settingsFile)) n := by
  have hsettings : t.destination (.ofName places.settingsFile) =
      "settings.json" :: t.destination (.ofName places.configDirectory) :=
    t.destination_joinName _ isName_settingsFile
  have hlogs : t.destination (.ofName places.logDirectory) =
      "logs" :: t.destination (.ofName places.configDirectory) :=
    t.destination_joinName _ isName_logDirectory
  have hlog : t.destination (.ofName places.logFile) =
      s!"glyph-desmos-{places.date}.log" :: t.destination (.ofName places.logDirectory) :=
    t.destination_joinName _ (isName_logFile hdate)
  have hconfigSteps : ".." ∉ (Route.ofName places.configDirectory).steps := by
    intro h
    rw [Places.settingsFile, Route.ofName_joinName _ isName_settingsFile] at hup
    exact hup (List.mem_append_left _ h)
  have hlogSteps : ".." ∉ (Route.ofName places.logDirectory).steps := by
    rw [Places.logDirectory, Route.ofName_joinName _ isName_logDirectory]
    simpa using hconfigSteps
  rw [hsettings]
  rintro (h | h | h)
  · have hle := (h.suffix hconfigSteps).length_le
    rw [List.length_cons] at hle
    omega
  · have hsuffix := h.suffix hlogSteps
    rw [hlogs] at hsuffix
    exact absurd (List.head_eq_of_cons_eq (hsuffix.eq_of_length rfl)) (by decide)
  · rw [hlog, hlogs] at h
    have hlength := congrArg List.length h
    simp only [List.length_cons] at hlength
    omega

/-- What is prepared elsewhere does not make the settings file be there. -/
theorem exists_of_not_isPrepared (hproper : t.IsProper) {name : String}
    (hup : ".." ∉ (Route.ofName name).steps)
    (hnew : ∀ n, ¬ IsPrepared places t (t.destination (.ofName name)) n) :
    (preparations places a t).1.exists name = t.exists name := by
  have hadds := adds_preparations places a t
  refine Bool.eq_iff_iff.mpr ⟨fun h => ?_, hadds.grows.exists_eq⟩
  obtain ⟨n, hstat⟩ := exists_eq_true_iff.mp h
  obtain ⟨l, hl, hn, hslash⟩ := stat_eq_ok_iff.mp hstat
  have hdestination : l = t.destination (.ofName name) :=
    (eq_destination hl).trans (hadds.grows.destination_eq _)
  have hthere : t.find? l = some n :=
    (hadds.added hn).resolve_right fun hprepared => hnew n (hdestination ▸ hprepared)
  exact hproper.exists_of_keeps hadds.toKeeps hup hl hthere hslash

/-- A name that does not go up is not missed. -/
theorem exists_preparations (hproper : t.IsProper) (hdate : '/' ∉ places.date.toList)
    (hup : ".." ∉ (Route.ofName (a.settingsName places)).steps)
    (hlog : a.logFile = true → a.config = none ∨
      ∀ n, ¬ IsPrepared places t (t.destination (.ofName (a.settingsName places))) n) :
    (preparations places a t).1.exists (a.settingsName places) =
      t.exists (a.settingsName places) := by
  rcases hconfig : a.config with _ | name
  · rw [Arguments.settingsName, hconfig, Option.getD_none] at hup ⊢
    exact exists_of_not_isPrepared hproper hup (not_isPrepared hdate hup)
  · cases hlogFile : a.logFile with
    | false =>
      rw [preparations, logging, configuring, hconfig, hlogFile]
      rfl
    | true =>
      have hnew := (hlog hlogFile).resolve_left (by rw [hconfig]; exact Option.some_ne_none name)
      exact exists_of_not_isPrepared hproper hup hnew

/-- The directory for the configuration is made, unless a file was named. -/
theorem createDirectories_preparations (hconfig : a.config = none)
    (h : (preparations places a t).2 = true) :
    (preparations places a t).1.createDirectories places.configDirectory =
      ((preparations places a t).1, .ok ()) := by
  have hconfiguring : configuring places a =
      (Change.of (createDirectories · places.configDirectory)).andThen
        (.of (createDirectories · places.logDirectory)) := by
    rw [configuring, hconfig]
    rfl
  rw [preparations, hconfiguring] at h ⊢
  obtain ⟨hlog, hmade⟩ := Change.snd_andThen.mp h
  have hconfigMade := (Change.snd_andThen.mp hmade).1
  rw [Change.andThen_eq hlog, Change.andThen_eq hconfigMade, Change.fst_of, Change.fst_of]
  refine createDirectories_again (Change.eq_of_snd hconfigMade) ?_
  exact (adds_createDirectories _ _).grows

/-! ### What is written over -/

/-- The settings are written over a file: there is nothing by their name, but once the directories
on the way to them are made, the name leads to a file. -/
structure WritesOver (places : Places) (a : Arguments) (t : FileTree) (k : Location) : Prop where
  prepared : (preparations places a t).2 = true
  unseen : (preparations places a t).1.exists (a.settingsName places) = false
  found : ∃ made,
    (preparations places a t).1.createParents (a.settingsName places) = (made, .ok ()) ∧
      made.target (a.settingsName places) = .ok k
  file : ∃ c, t.find? k = some (.file c)

namespace WritesOver

variable {k : Location}

/-- Then the file holds the settings. -/
theorem find?_newSettings (h : WritesOver places a t k) :
    (newSettings places a t).1.find? k = some (.file (.text Settings.example.write)) := by
  obtain ⟨made, hmade, hk⟩ := h.found
  have hwrite : made.write (a.settingsName places) Settings.example.write =
      .ok (made.insert k (.file (.text Settings.example.write))) :=
    write_eq_ok_iff.mpr ⟨k, hk, rfl⟩
  rw [newSettings, Change.andThen_eq h.prepared, Change.ofSetup, Setup.settingsFile, h.unseen,
    if_neg Bool.false_ne_true, Settings.save, hmade]
  dsimp only
  rw [hwrite]
  exact (find?_of_write hk hwrite k).trans (if_pos rfl)

/-- It takes a file that was named, for the directory for the configuration is there before the
settings are looked for. -/
theorem config_ne_none (h : WritesOver places a t k) : a.config ≠ none := by
  intro hconfig
  obtain ⟨made, hmade, hk⟩ := h.found
  have hname : a.settingsName places = places.settingsFile := by
    rw [Arguments.settingsName, hconfig, Option.getD_none]
  have hmadeAgain : (preparations places a t).1.createParents places.settingsFile =
      ((preparations places a t).1, .ok ()) := by
    rw [Places.settingsFile, createParents_joinName _ _ isName_settingsFile]
    exact createDirectories_preparations hconfig h.prepared
  rw [hname, hmadeAgain] at hmade
  cases hmade
  obtain ⟨c, hc⟩ := h.file
  have hfree := find?_target_of_not_exists h.unseen hk
  rw [(adds_preparations places a t).node hc] at hfree
  cases hfree

/-- It takes a name that goes up. -/
theorem goes_up (h : WritesOver places a t k) (hproper : t.IsProper) :
    ".." ∈ (Route.ofName (a.settingsName places)).steps := by
  by_contra hup
  obtain ⟨made, hmade, hk⟩ := h.found
  obtain ⟨hresolve, hslash, -⟩ := target_eq_ok_iff.mp hk
  obtain ⟨c, hc⟩ := h.file
  have hroom := (adds_preparations places a t).toKeeps
  have hkeeps : (preparations places a t).1.Keeps made := by
    have hparents :=
      (adds_createParents (preparations places a t).1 (a.settingsName places)).toKeeps
    rwa [hmade] at hparents
  have hseen : t.exists (a.settingsName places) = true := by
    refine hproper.exists_of_keeps (hroom.trans hkeeps) hup hresolve hc fun hs => ?_
    rw [hslash] at hs
    cases hs
  cases h.unseen.symm.trans (hroom.grows.exists_eq hseen)

end WritesOver

/-! ### The settings -/

theorem newSettings_of_prepared (h : (preparations places a t).2 = true) :
    newSettings places a t =
      Change.ofSetup (Setup.settingsFile (a.settingsName places)) (preparations places a t).1 :=
  Change.andThen_eq h _

/-- All that was there is still there, but for what was written over. -/
theorem keeps_newSettings {k : Location} {n : Node} (hk : t.find? k = some n) :
    (newSettings places a t).1.find? k = some n ∨ WritesOver places a t k := by
  have hroom := (adds_preparations places a t).node hk
  cases hprepared : (preparations places a t).2 with
  | false =>
    have hnew : newSettings places a t = preparations places a t :=
      if_neg (Bool.eq_false_iff.mp hprepared)
    exact .inl (hnew ▸ hroom)
  | true =>
    rw [newSettings_of_prepared hprepared, Change.ofSetup]
    rcases settingsFile_cases (a.settingsName places) (preparations places a t).1 with
      ⟨-, -, h⟩ | ⟨-, -, h⟩ | ⟨hunseen, -, h⟩
    · rw [h]
      exact .inl hroom
    · rw [h]
      exact .inl ((adds_createParents _ _).node hroom)
    · obtain ⟨made, hmade, hwrite⟩ := Settings.exists_write_of_save h
      obtain ⟨l, hl, -⟩ := write_eq_ok_iff.mp hwrite
      have hkept : made.find? k = some n := by
        have hparents := adds_createParents (preparations places a t).1 (a.settingsName places)
        rw [hmade] at hparents
        exact hparents.node hroom
      -- only where the settings are written can anything be lost, and no directory is written over
      rcases eq_or_ne k l with rfl | hne
      · cases n with
        | directory => exact absurd hkept (target_eq_ok_iff.mp hl).2.2
        | file c => exact .inr ⟨hprepared, hunseen, ⟨made, hmade, hl⟩, c, hk⟩
      · exact .inl ((find?_of_write hl hwrite k).trans ((if_neg hne).trans hkept))

theorem isStable_settingsFile (name : String) :
    (Change.ofSetup (Setup.settingsFile name)).IsStable where
  grows t := by
    rw [Change.ofSetup]
    rcases settingsFile_cases name t with ⟨-, -, h⟩ | ⟨-, -, h⟩ | ⟨-, -, h⟩
    · rw [h]
      exact (Keeps.refl t).grows
    · rw [h]
      exact (adds_createParents t name).grows
    · obtain ⟨made, hmade, hwrite⟩ := Settings.exists_write_of_save h
      have hparents := (adds_createParents t name).grows
      rw [hmade] at hparents
      obtain ⟨l, hl, hinsert⟩ := write_eq_ok_iff.mp hwrite
      rw [← hinsert]
      exact hparents.trans (grows_insert (target_eq_ok_iff.mp hl).2.2 _)
  again {t t'} h hgrows := by
    have hseen : (Setup.settingsFile name t).tree.exists name = true := by
      rcases settingsFile_cases name t with ⟨hseen, -, htree⟩ | ⟨-, hfailed, -⟩ | ⟨-, -, hsave⟩
      · rwa [htree]
      · cases hfailed.symm.trans h
      · obtain ⟨made, -, hwrite⟩ := Settings.exists_write_of_save hsave
        exact exists_of_read (read_of_write hwrite)
    rw [Change.ofSetup, Setup.settingsFile, if_pos (hgrows.exists_eq hseen)]
    rfl

theorem isStable_createDirectories (name : String) :
    (Change.of (createDirectories · name)).IsStable :=
  .of (fun t => (adds_createDirectories t name).grows) createDirectories_again

/-- What a request for new settings has done is not done again. -/
theorem isStable_newSettings (places : Places) (a : Arguments) :
    (newSettings places a).IsStable := by
  have hlog : (logging places a).IsStable := by
    rw [logging]
    split
    · exact .of (fun t => (adds_startLog places t).grows) startLog_again
    · exact .skip
  have hconfig : (configuring places a).IsStable := by
    rw [configuring]
    split
    · exact .skip
    · exact (isStable_createDirectories _).andThen (isStable_createDirectories _)
  exact (hlog.andThen hconfig).andThen (isStable_settingsFile _)

/-- Settings that are new are the built-in choices. -/
theorem load_newSettings (h : (newSettings places a t).2 = true)
    (hunseen : (preparations places a t).1.exists (a.settingsName places) = false) :
    Settings.load (newSettings places a t).1 (a.settingsName places) =
      .ok (some Settings.example) := by
  obtain ⟨hprepared, hresult⟩ := Change.snd_andThen.mp h
  rw [newSettings_of_prepared hprepared, Change.ofSetup]
  rcases settingsFile_cases (a.settingsName places) (preparations places a t).1 with
    ⟨hseen, -, -⟩ | ⟨-, hfailed, -⟩ | ⟨-, -, hsave⟩
  · cases hseen.symm.trans hunseen
  · cases hfailed.symm.trans hresult
  · have hfinite : Style.default.normalization.isFinite = true := by decide +kernel
    have hreads : Json.readNumber (Json.writeReal Style.default.normalization).toList =
        .ok (Style.default.normalization, []) := by decide +kernel
    refine Settings.load_of_save ?_ ?_ hsave
    · rintro x ⟨⟩
      exact hfinite
    · rintro x ⟨⟩ -
      exact hreads

/-! ## Requests for new settings -/

/-- What a request for new settings does to a tree. -/
structure MakesNewSettings (places : Places) (a : Arguments) (t : FileTree) (r : Run) : Prop where
  /-- All that was there is still there, but for a file that the settings are written over. -/
  keeps : ∀ {k n}, t.find? k = some n → r.tree.find? k = some n ∨ WritesOver places a t k
  overwritten : ∀ {k}, WritesOver places a t k →
    r.tree.find? k = some (.file (.text Settings.example.write))
  /-- The file of the user is never written over. -/
  named : ∀ {k}, WritesOver places a t k → a.config ≠ none
  /-- A file is written over only by a name that goes up. -/
  goesUp : ∀ {k}, WritesOver places a t k → t.IsProper →
    ".." ∈ (Route.ofName (a.settingsName places)).steps
  /-- Settings that are not there when they are looked for are the built-in choices afterwards. -/
  loads : r.result = .ok () →
    (preparations places a t).1.exists (a.settingsName places) = false →
    Settings.load r.tree (a.settingsName places) = .ok (some Settings.example)
  /-- By a name that does not go up, the settings are there when they are looked for if they were
  there before, unless a file was named that is made as the log. -/
  unseen : t.IsProper → '/' ∉ places.date.toList →
    ".." ∉ (Route.ofName (a.settingsName places)).steps →
    (a.logFile = true → a.config = none ∨
      ∀ n, ¬ IsPrepared places t (t.destination (.ofName (a.settingsName places))) n) →
    (preparations places a t).1.exists (a.settingsName places) = t.exists (a.settingsName places)
  /-- The same request succeeds again, and changes nothing. -/
  again : r.result = .ok () →
    (run places a r.tree).result = .ok () ∧ (run places a r.tree).tree = r.tree
  /-- The built-in choices are what is used without settings. -/
  agrees : ∀ b : Arguments, b.style (some Settings.example) = b.style none ∧
    b.wantsHelpers (some Settings.example) = b.wantsHelpers none

/-- **A request for new settings.** All files keep what they hold, unless the name of the settings
goes up; settings that were not there are the built-in choices; and the request can be repeated. -/
theorem makesNewSettings_run (places : Places) (a : Arguments) (t : FileTree)
    (h : a.newConfig = true) : MakesNewSettings places a t (run places a t) := by
  have htree (t : FileTree) : (run places a t).tree = (newSettings places a t).1 :=
    congrArg Prod.fst (run_newConfig places h t)
  have hresult (t : FileTree) :
      (run places a t).result = .ok () ↔ (newSettings places a t).2 = true := by
    rw [← isOk_eq_true_iff]
    exact iff_of_eq (congrArg (·.2 = true) (run_newConfig places h t))
  refine ⟨?_, ?_, fun hover => hover.config_ne_none, fun hover => hover.goes_up, ?_,
    exists_preparations, ?_, ?_⟩
  · rw [htree]
    exact keeps_newSettings
  · rw [htree]
    exact fun hover => hover.find?_newSettings
  · rw [htree, hresult]
    exact load_newSettings
  · rw [hresult, hresult, htree, htree]
    intro hmade
    rw [(isStable_newSettings places a).twice hmade]
    exact ⟨rfl, rfl⟩
  · exact fun b => ⟨rfl, rfl⟩

end Request

/-! ## A file that is written over -/

/-- A directory to work in, with a file in it. -/
def homeWithFile : FileTree :=
  ⟨[(["b.json", "home"], .file (.text "\x7b\x7d")), (["home"], .directory)], ["home"]⟩

/-- The places of a user who works there. -/
def homePlaces : Places := ⟨"/home/.config", "2025-12-31"⟩

theorem makesNewSettings_run_home :
    let a : Arguments := { Arguments.empty with newConfig := true, logFile := true }
    let r := run homePlaces a homeWithFile
    MakesNewSettings homePlaces a homeWithFile r ∧
      r.tree.find? ["b.json", "home"] = some (.file (.text "\x7b\x7d")) ∧
      Settings.load r.tree homePlaces.settingsFile = .ok (some Settings.example) := by
  intro a r
  have hmakes : MakesNewSettings homePlaces a homeWithFile r :=
    makesNewSettings_run homePlaces a homeWithFile rfl
  refine ⟨hmakes, ?_, ?_⟩
  · exact (hmakes.keeps rfl).resolve_right fun hover => hmakes.named hover rfl
  · refine hmakes.loads (isOk_eq_true_iff.mp ?_) ?_
    · decide +kernel
    · rw [hmakes.unseen (by decide +kernel) (by decide) (by decide +kernel) fun _ => .inl rfl]
      decide +kernel

/-- A name that goes up from a directory that is not there yet leads nowhere when the settings are
looked for, and to a file once the directory is made. -/
theorem not_keeps_files :
    ¬ ∀ (places : Places) (a : Arguments) (t : FileTree), a.newConfig = true → t.IsProper →
      ∀ k c, t.find? k = some (.file c) → (run places a t).tree.find? k = some (.file c) := by
  intro h
  have hkept := h homePlaces
      { Arguments.empty with newConfig := true, config := some "a/../b.json" }
    homeWithFile rfl (by decide) ["b.json", "home"] (.text "\x7b\x7d") rfl
  revert hkept
  decide +kernel

end PiecewiseGlyph
