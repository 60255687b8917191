import Mathlib.Data.List.Infix
import PiecewiseGlyph.Files.Access
import PiecewiseGlyph.Result

/-!
# Files that have been written

A file is written at one location, and all names keep their meaning: only a directory is passed on
the way to another location, and no directory is written over.

* `FileTree.descend_eq_ok_iff`: a way is open if all places on it are directories;
* `FileTree.Grows` says that directories stay directories and files stay files, and `FileTree.Keeps`
  that files keep what they hold, too. What a name leads to, it leads to when the tree has grown
  (`Grows.resolve_eq`, `Grows.exists_eq`);
* `FileTree.target_eq_ok_iff` says where a name can be written, and `FileTree.write_eq_ok_iff` what
  writing does;
* `FileTree.read_of_write` and `FileTree.find?_of_write`: what was written is read, and nothing else
  has changed.
-/

namespace PiecewiseGlyph.FileTree

variable {t t' t'' : FileTree} {l : Location}

/-! ## Ways -/

/-- A way is open if all places on it are directories. -/
theorem descend_eq_ok_iff {here there : Location} {steps : List String} :
    t.descend here steps = .ok there ↔
      there = steps.foldl step here ∧
        ∀ xs, xs <+: steps → xs ≠ [] → t.find? (xs.foldl step here) = some .directory := by
  induction steps generalizing here with
  | nil =>
    rw [descend]
    constructor
    · intro h
      cases h
      exact ⟨rfl, fun xs hxs hne => absurd (List.prefix_nil.mp hxs) hne⟩
    · rintro ⟨rfl, -⟩
      rfl
  | cons s rest ih =>
    rw [descend]
    constructor
    · intro h
      split at h
      · rename_i hdirectory
        obtain ⟨rfl, hrest⟩ := ih.mp h
        refine ⟨rfl, fun xs hxs hne => ?_⟩
        cases xs with
        | nil => exact absurd rfl hne
        | cons x xs =>
          obtain ⟨rfl, hrest'⟩ := List.cons_prefix_cons.mp hxs
          rcases eq_or_ne xs [] with rfl | hne'
          · exact hdirectory
          · exact hrest xs hrest' hne'
      · cases h
      · cases h
    · rintro ⟨rfl, hall⟩
      have hdirectory : t.find? (step here s) = some .directory :=
        hall [s] (List.prefix_append [s] rest) (List.cons_ne_nil _ _)
      rw [hdirectory]
      refine ih.mpr ⟨rfl, fun xs hxs hne => ?_⟩
      exact hall (s :: xs) (List.cons_prefix_cons.mpr ⟨rfl, hxs⟩) (List.cons_ne_nil _ _)

theorem descend_concat_eq_ok_iff {here there : Location} {steps : List String} {last : String} :
    t.descend here (steps ++ [last]) = .ok there ↔
      ∃ k, t.descend here steps = .ok k ∧ there = step k last ∧
        t.find? there = some .directory := by
  simp only [descend_eq_ok_iff, List.foldl_concat]
  constructor
  · rintro ⟨rfl, hall⟩
    have hlast := hall _ List.prefix_rfl (by simp)
    rw [List.foldl_concat] at hlast
    exact ⟨_, ⟨rfl, fun xs hxs => hall xs (hxs.trans (List.prefix_append _ _))⟩, rfl, hlast⟩
  · rintro ⟨_, ⟨rfl, hall⟩, rfl, hlast⟩
    refine ⟨rfl, fun xs hxs hne => ?_⟩
    rcases List.prefix_concat_iff.mp hxs with rfl | hxs
    · rwa [List.foldl_concat]
    · exact hall xs hxs hne

theorem resolve_eq_ok_iff {r : Route} :
    t.resolve r = .ok l ↔
      (∃ last, r.steps.getLast? = some last ∧
        ∃ k, t.descend (t.origin r.absolute) r.steps.dropLast = .ok k ∧ step k last = l) ∨
      (r.steps = [] ∧ r.absolute = true ∧ l = []) := by
  rw [resolve]
  split
  · rename_i last hlast
    rw [map_eq_ok]
    constructor
    · exact fun h => .inl ⟨last, hlast, h⟩
    · rintro (⟨last', hlast', h⟩ | ⟨hnil, -⟩)
      · obtain rfl := Option.some.inj (hlast.symm.trans hlast')
        exact h
      · rw [hnil] at hlast
        cases hlast
  · rename_i hlast
    have hnil := List.getLast?_eq_none_iff.mp hlast
    constructor
    · intro h
      split at h
      · rename_i habsolute
        cases h
        exact .inr ⟨hnil, habsolute, rfl⟩
      · cases h
    · rintro (⟨last, hlast', -⟩ | ⟨-, habsolute, rfl⟩)
      · rw [hlast] at hlast'
        cases hlast'
      · rw [if_pos habsolute]

/-! ## Looking -/

/-- What a name stands for is at its location. If the name ends with a slash, it has to be a
directory. -/
theorem stat_eq_ok_iff {name : String} {n : Node} :
    t.stat name = .ok n ↔ ∃ l, t.resolve (Route.ofName name) = .ok l ∧ t.find? l = some n ∧
      ((Route.ofName name).slash = true → n = .directory) := by
  rw [stat, bind_eq_ok]
  refine exists_congr fun l => and_congr_right fun _ => ?_
  rcases hnode : t.find? l with _ | _ | content
  · constructor
    · intro h
      cases h
    · rintro ⟨h, -⟩
      cases h
  · constructor
    · intro h
      cases h
      exact ⟨rfl, fun _ => rfl⟩
    · rintro ⟨h, -⟩
      cases h
      rfl
  · constructor
    · intro h
      dsimp only at h
      split at h
      · cases h
      · rename_i hslash
        cases h
        exact ⟨rfl, fun h => absurd h hslash⟩
    · rintro ⟨h, hslash⟩
      cases h
      refine if_neg fun h => ?_
      cases hslash h

theorem exists_eq_true_iff {name : String} : t.exists name = true ↔ ∃ n, t.stat name = .ok n := by
  rw [«exists»]
  cases t.stat name with
  | error e =>
    constructor
    · intro h
      cases h
    · rintro ⟨n, h⟩
      cases h
  | ok n => exact ⟨fun _ => ⟨n, rfl⟩, fun _ => rfl⟩

/-! ## Growth -/

/-- Everything in a tree is still there in another. A file may have been written over. -/
structure Grows (t t' : FileTree) : Prop where
  working : t'.working = t.working
  directory : ∀ {k}, t.find? k = some .directory → t'.find? k = some .directory
  file : ∀ {k c}, t.find? k = some (.file c) → ∃ c', t'.find? k = some (.file c')

/-- Everything in a tree is still there in another, as it was. -/
structure Keeps (t t' : FileTree) : Prop where
  working : t'.working = t.working
  node : ∀ {k n}, t.find? k = some n → t'.find? k = some n

theorem Keeps.refl (t : FileTree) : t.Keeps t := ⟨rfl, id⟩

theorem Keeps.trans (h : t.Keeps t') (h' : t'.Keeps t'') : t.Keeps t'' :=
  ⟨h'.working.trans h.working, h'.node ∘ h.node⟩

theorem Keeps.grows (h : t.Keeps t') : t.Grows t' := ⟨h.working, h.node, fun hk => ⟨_, h.node hk⟩⟩

/-- Nothing is lost by what is put where nothing was. -/
theorem keeps_insert (h : t.find? l = none) (n : Node) : t.Keeps (t.insert l n) := by
  have hroot : l ≠ [] := by
    rintro rfl
    cases h
  refine ⟨rfl, fun {k m} hk => ?_⟩
  rw [find?_insert t n hroot, if_neg ?_]
  · exact hk
  · rintro rfl
    rw [h] at hk
    cases hk

/-- A file that is written over is a file. -/
theorem grows_insert (h : t.find? l ≠ some .directory) (c : Content) :
    t.Grows (t.insert l (.file c)) := by
  have hroot : l ≠ [] := by
    rintro rfl
    exact h t.find?_root
  refine ⟨rfl, fun {k} hk => ?_, fun {k c'} hk => ?_⟩
  · rw [find?_insert t _ hroot, if_neg ?_]
    · exact hk
    · rintro rfl
      exact h hk
  · rw [find?_insert t _ hroot]
    split
    · exact ⟨c, rfl⟩
    · exact ⟨c', hk⟩

namespace Grows

theorem trans (h : t.Grows t') (h' : t'.Grows t'') : t.Grows t'' where
  working := h'.working.trans h.working
  directory := h'.directory ∘ h.directory
  file hk := by
    obtain ⟨c, hc⟩ := h.file hk
    exact h'.file hc

theorem origin_eq (h : t.Grows t') (absolute : Bool) : t'.origin absolute = t.origin absolute := by
  rw [origin, origin, h.working]

theorem descend_eq (h : t.Grows t') {here there : Location} {steps : List String}
    (hdescend : t.descend here steps = .ok there) : t'.descend here steps = .ok there := by
  obtain ⟨hthere, hall⟩ := descend_eq_ok_iff.mp hdescend
  exact descend_eq_ok_iff.mpr ⟨hthere, fun xs hxs hne => h.directory (hall xs hxs hne)⟩

theorem resolve_eq (h : t.Grows t') {r : Route} {l : Location} (hr : t.resolve r = .ok l) :
    t'.resolve r = .ok l := by
  rw [resolve_eq_ok_iff, h.origin_eq]
  rcases resolve_eq_ok_iff.mp hr with ⟨last, hlast, k, hk, hl⟩ | hroot
  · exact .inl ⟨last, hlast, k, h.descend_eq hk, hl⟩
  · exact .inr hroot

theorem exists_eq (h : t.Grows t') {name : String} (hname : t.exists name = true) :
    t'.exists name = true := by
  obtain ⟨n, hstat⟩ := exists_eq_true_iff.mp hname
  obtain ⟨l, hl, hn, hslash⟩ := stat_eq_ok_iff.mp hstat
  have hl := h.resolve_eq hl
  refine exists_eq_true_iff.mpr ?_
  cases n with
  | directory => exact ⟨_, stat_eq_ok_iff.mpr ⟨l, hl, h.directory hn, fun _ => rfl⟩⟩
  | file c =>
    obtain ⟨c', hc'⟩ := h.file hn
    exact ⟨_, stat_eq_ok_iff.mpr ⟨l, hl, hc', fun hs => by cases hslash hs⟩⟩

end Grows

/-- What can be read can still be read where everything was kept. -/
theorem Keeps.read_eq (h : t.Keeps t') {name text : String} (hname : t.read name = .ok text) :
    t'.read name = .ok text := by
  obtain ⟨n, hstat, htext⟩ := bind_eq_ok.mp hname
  obtain ⟨l, hl, hn, hslash⟩ := stat_eq_ok_iff.mp hstat
  refine bind_eq_ok.mpr ⟨n, ?_, htext⟩
  exact stat_eq_ok_iff.mpr ⟨l, h.grows.resolve_eq hl, h.node hn, hslash⟩

/-! ## Writing -/

/-- A file is written where a name leads to, if no directory is there, nor meant. -/
theorem target_eq_ok_iff {name : String} :
    t.target name = .ok l ↔
      t.resolve (Route.ofName name) = .ok l ∧ (Route.ofName name).slash = false ∧
        t.find? l ≠ some .directory := by
  rw [target, bind_eq_ok]
  constructor
  · rintro ⟨k, hk, h⟩
    cases hslash : (Route.ofName name).slash with
    | true =>
      rw [hslash] at h
      cases h
    | false =>
      rw [hslash] at h
      rcases hnode : t.find? k with _ | _ | content <;> simp only [hnode] at h <;> cases h
      all_goals exact ⟨hk, rfl, by rw [hnode]; nofun⟩
  · rintro ⟨hk, hslash, hfree⟩
    refine ⟨l, hk, ?_⟩
    rw [hslash]
    rcases hnode : t.find? l with _ | _ | content
    · rfl
    · exact absurd hnode hfree
    · rfl

/-- Where there is nothing by a name, a file of the name is a new one. -/
theorem find?_target_of_not_exists {name : String} (h : t.exists name = false)
    (hl : t.target name = .ok l) : t.find? l = none := by
  obtain ⟨hresolve, hslash, -⟩ := target_eq_ok_iff.mp hl
  by_contra hnode
  obtain ⟨n, hn⟩ := Option.ne_none_iff_exists'.mp hnode
  have hstat := stat_eq_ok_iff.mpr ⟨l, hresolve, hn, fun hs => by rw [hslash] at hs; cases hs⟩
  rw [exists_eq_true_iff.mpr ⟨n, hstat⟩] at h
  cases h

/-- Writing puts a file at the location of the name. -/
theorem write_eq_ok_iff {name text : String} :
    t.write name text = .ok t' ↔
      ∃ l, t.target name = .ok l ∧ t.insert l (.file (.text text)) = t' :=
  map_eq_ok

theorem ne_root_of_target {name : String} (h : t.target name = .ok l) : l ≠ [] := by
  rintro rfl
  exact (target_eq_ok_iff.mp h).2.2 t.find?_root

/-- What was written is there, and nothing else has changed. -/
theorem find?_of_write {name text : String} (hl : t.target name = .ok l)
    (h : t.write name text = .ok t') (k : Location) :
    t'.find? k = if k = l then some (.file (.text text)) else t.find? k := by
  obtain ⟨l', hl', rfl⟩ := write_eq_ok_iff.mp h
  cases hl.symm.trans hl'
  exact find?_insert t _ (ne_root_of_target hl) k

/-- What was written is read by the same name. -/
theorem read_of_write {name text : String} (h : t.write name text = .ok t') :
    t'.read name = .ok text := by
  obtain ⟨l, hl, rfl⟩ := write_eq_ok_iff.mp h
  obtain ⟨hresolve, hslash, hfree⟩ := target_eq_ok_iff.mp hl
  have hfind : (t.insert l (.file (.text text))).find? l = some (.file (.text text)) := by
    rw [find?_insert t _ (ne_root_of_target hl), if_pos rfl]
  have hstat : (t.insert l (.file (.text text))).stat name = .ok (.file (.text text)) := by
    rw [stat]
    refine bind_eq_ok.mpr ⟨l, (grows_insert hfree _).resolve_eq hresolve, ?_⟩
    simp only [hfind, hslash]
    rfl
  exact bind_eq_ok.mpr ⟨_, hstat, rfl⟩

/-- What can be read is there. -/
theorem exists_of_read {name text : String} (h : t.read name = .ok text) :
    t.exists name = true := by
  obtain ⟨n, hn, -⟩ := bind_eq_ok.mp h
  rw [«exists», hn]
  rfl

end PiecewiseGlyph.FileTree
