import PiecewiseGlyph.Proofs.Files

/-!
# Trees with new directories

Making directories takes nothing away, and need not be done twice.

* `FileTree.Adds` says that some nodes were added, and nothing else happened; `adds_createSteps`
  that making directories adds those on the way to them, if anything;
* `descend_of_createSteps`: a directory that was made is there, and `createSteps_of_descend`: where
  it is, it is not made again;
* `FileTree.IsProper` is a tree in which everything is in a directory. In such a tree a way that
  never goes up is open if something is at its end (`IsProper.resolve_of_keeps`,
  `IsProper.exists_of_keeps`).
-/

namespace PiecewiseGlyph.FileTree

variable {t t' t'' : FileTree}

/-! ## Directories that are made -/

/-- Some nodes were added, and nothing else happened. -/
structure Adds (t t' : FileTree) (new : Location → Node → Prop) : Prop extends t.Keeps t' where
  added : ∀ {k n}, t'.find? k = some n → t.find? k = some n ∨ new k n

namespace Adds

variable {new new' : Location → Node → Prop}

theorem refl (t : FileTree) (new : Location → Node → Prop) : t.Adds t new := ⟨.refl t, .inl⟩

theorem trans (h : t.Adds t' new) (h' : t'.Adds t'' new) : t.Adds t'' new where
  toKeeps := h.toKeeps.trans h'.toKeeps
  added hk := (h'.added hk).elim h.added .inr

theorem mono (h : t.Adds t' new) (hnew : ∀ k n, new k n → new' k n) : t.Adds t' new' :=
  ⟨h.toKeeps, fun hk => (h.added hk).imp_right (hnew _ _)⟩

end Adds

theorem adds_insert {l : Location} {n : Node} (h : t.find? l = none) {new : Location → Node → Prop}
    (hl : new l n) : t.Adds (t.insert l n) new := by
  refine ⟨keeps_insert h n, fun {k m} hk => ?_⟩
  have hroot : l ≠ [] := by
    rintro rfl
    cases h
  rw [find?_insert t n hroot] at hk
  split at hk
  · rename_i hkl
    cases hk
    exact .inr (hkl ▸ hl)
  · exact .inl hk

/-- A directory is made where there is nothing, unless it is there. -/
theorem ensureDirectory_eq_ok_iff {start : Location} {last : String} {before : List String} :
    t.ensureDirectory start last before = .ok t' ↔
      ∃ l, t.descend start before.reverse = .ok l ∧
        (t.find? (step l last) = some .directory ∧ t' = t ∨
          t.find? (step l last) = none ∧ t' = t.insert (step l last) .directory) := by
  rw [ensureDirectory, bind_eq_ok]
  refine exists_congr fun l => and_congr_right fun _ => ?_
  dsimp only
  rcases t.find? (step l last) with _ | _ | content
  · constructor
    · intro h
      cases h
      exact .inr ⟨rfl, rfl⟩
    · rintro (⟨h, -⟩ | ⟨-, rfl⟩)
      · cases h
      · rfl
  · constructor
    · intro h
      cases h
      exact .inl ⟨rfl, rfl⟩
    · rintro (⟨-, rfl⟩ | ⟨h, -⟩)
      · rfl
      · cases h
  · constructor
    · intro h
      cases h
    · rintro (⟨h, -⟩ | ⟨h, -⟩) <;> cases h

/-- A directory on a way: where a beginning of it leads. -/
def OnWay (start : Location) (steps : List String) (k : Location) (n : Node) : Prop :=
  n = .directory ∧ ∃ xs, xs <+: steps ∧ k = xs.foldl step start

theorem adds_ensureDirectory {start : Location} {last : String} {before : List String}
    (h : t.ensureDirectory start last before = .ok t') :
    t.Adds t' (OnWay start (last :: before).reverse) := by
  obtain ⟨l, hl, ⟨-, rfl⟩ | ⟨hnone, rfl⟩⟩ := ensureDirectory_eq_ok_iff.mp h
  · exact .refl _ _
  · obtain ⟨rfl, -⟩ := descend_eq_ok_iff.mp hl
    refine adds_insert hnone ⟨rfl, _, List.prefix_rfl, ?_⟩
    rw [List.reverse_cons, List.foldl_concat]

/-- What is made is there. -/
theorem descend_of_ensureDirectory {start : Location} {last : String} {before : List String}
    (h : t.ensureDirectory start last before = .ok t') :
    ∃ l, t'.descend start (last :: before).reverse = .ok l := by
  rw [List.reverse_cons]
  obtain ⟨l, hl, ⟨hdirectory, rfl⟩ | ⟨hnone, rfl⟩⟩ := ensureDirectory_eq_ok_iff.mp h
  · exact ⟨_, descend_concat_eq_ok_iff.mpr ⟨l, hl, rfl, hdirectory⟩⟩
  · have hroot : step l last ≠ [] := by
      intro hroot
      rw [hroot] at hnone
      cases hnone
    refine ⟨_, descend_concat_eq_ok_iff.mpr ⟨l, (keeps_insert hnone _).grows.descend_eq hl,
      rfl, ?_⟩⟩
    rw [find?_insert t _ hroot, if_pos rfl]

/-- What is there is not made. -/
theorem ensureDirectory_of_descend {start l : Location} {last : String} {before : List String}
    (h : t.descend start (last :: before).reverse = .ok l) :
    t.ensureDirectory start last before = .ok t := by
  rw [List.reverse_cons] at h
  obtain ⟨k, hk, rfl, hdirectory⟩ := descend_concat_eq_ok_iff.mp h
  exact ensureDirectory_eq_ok_iff.mpr ⟨k, hk, .inl ⟨hdirectory, rfl⟩⟩

/-- Also when it fails, making directories does nothing but that. -/
theorem adds_createSteps (t : FileTree) (start : Location) (steps : List String) :
    t.Adds (t.createSteps start steps).1 (OnWay start steps.reverse) := by
  induction steps with
  | nil => exact .refl t _
  | cons last before ih =>
    have ih := ih.mono fun k n ⟨hn, xs, hxs, hk⟩ =>
      (⟨hn, xs, hxs.trans (List.reverse_cons ▸ List.prefix_append _ _), hk⟩ :
        OnWay start (last :: before).reverse k n)
    rw [createSteps]
    split
    · rename_i t₁ hmade
      exact adds_ensureDirectory hmade
    · split
      · rename_i t₁ e hbefore
        rwa [hbefore] at ih
      · rename_i t₁ hbefore
        rw [hbefore] at ih
        split
        · rename_i t₂ hmade
          exact ih.trans (adds_ensureDirectory hmade)
        · exact ih
    · exact .refl t _

/-- Directories that were made are there. -/
theorem descend_of_createSteps {start : Location} {steps : List String}
    (h : t.createSteps start steps = (t', .ok ())) :
    ∃ l, t'.descend start steps.reverse = .ok l := by
  cases steps with
  | nil => exact ⟨start, rfl⟩
  | cons last before =>
    rw [createSteps] at h
    split at h
    · rename_i t₁ hmade
      cases h
      exact descend_of_ensureDirectory hmade
    · split at h
      · cases h
      · split at h
        · rename_i t₂ hmade
          cases h
          exact descend_of_ensureDirectory hmade
        · cases h
    · cases h

/-- Directories that are there are not made. -/
theorem createSteps_of_descend {start l : Location} {steps : List String}
    (h : t.descend start steps.reverse = .ok l) : t.createSteps start steps = (t, .ok ()) := by
  cases steps with
  | nil => rfl
  | cons last before => rw [createSteps, ensureDirectory_of_descend h]

/-- What was made once is not made again, whatever has grown since. -/
theorem createSteps_again {start : Location} {steps : List String}
    (h : t.createSteps start steps = (t', .ok ())) (hgrows : t'.Grows t'') :
    t''.createSteps start steps = (t'', .ok ()) := by
  obtain ⟨l, hl⟩ := descend_of_createSteps h
  exact createSteps_of_descend (hgrows.descend_eq hl)

/-- A directory on the way that a name describes. -/
def OnName (t : FileTree) (name : String) : Location → Node → Prop :=
  OnWay (t.origin (Route.ofName name).absolute) (Route.ofName name).parts

theorem adds_createDirectories (t : FileTree) (name : String) :
    t.Adds (t.createDirectories name).1 (t.OnName name) := by
  have h := adds_createSteps t (t.origin (Route.ofName name).absolute)
    (Route.ofName name).parts.reverse
  rwa [List.reverse_reverse] at h

theorem Grows.onName_eq (h : t.Grows t') (name : String) : t'.OnName name = t.OnName name := by
  rw [OnName, OnName, h.origin_eq]

/-- Making directories once something was added adds what it would have added before. -/
theorem Adds.createDirectories {new : Location → Node → Prop} {name : String} (h : t.Adds t' new)
    (hnew : ∀ k n, t.OnName name k n → new k n) : t.Adds (t'.createDirectories name).1 new := by
  refine h.trans ((adds_createDirectories t' name).mono fun k n hk => hnew k n ?_)
  rwa [h.grows.onName_eq] at hk

theorem createDirectories_again {name : String} (h : t.createDirectories name = (t', .ok ()))
    (hgrows : t'.Grows t'') : t''.createDirectories name = (t'', .ok ()) := by
  have hkeeps := (adds_createDirectories t name).toKeeps
  rw [h] at hkeeps
  rw [createDirectories, hgrows.origin_eq, hkeeps.grows.origin_eq]
  exact createSteps_again h hgrows

/-- Making the directory of a file adds nothing but directories. -/
theorem adds_createParents (t : FileTree) (name : String) :
    t.Adds (t.createParents name).1 fun _ n => n = .directory :=
  (adds_createSteps t _ _).mono fun _ _ h => h.1

/-- The directory of a file is the one that it is named below. -/
theorem createParents_joinName (t : FileTree) (directory : String) {s : String}
    (hs : Route.IsName s) :
    t.createParents (joinName directory s) = t.createDirectories directory := by
  rw [createParents, createDirectories, Route.parts_joinName directory hs,
    Route.ofName_joinName directory hs, List.dropLast_concat]

/-! ## Where names lead -/

/-- Where a way leads, if it leads anywhere. -/
def destination (t : FileTree) (r : Route) : Location := r.steps.foldl step (t.origin r.absolute)

theorem eq_destination {r : Route} {l : Location} (h : t.resolve r = .ok l) :
    l = t.destination r := by
  rw [destination]
  rcases resolve_eq_ok_iff.mp h with ⟨last, hlast, k, hk, rfl⟩ | ⟨hsteps, habsolute, rfl⟩
  · obtain ⟨rfl, -⟩ := descend_eq_ok_iff.mp hk
    conv => rhs; rw [← List.dropLast_append_getLast? last hlast, List.foldl_concat]
  · rw [hsteps, habsolute]
    rfl

theorem Grows.destination_eq (h : t.Grows t') (r : Route) : t'.destination r = t.destination r := by
  rw [destination, destination, h.origin_eq]

theorem destination_joinName (t : FileTree) (directory : String) {s : String}
    (hs : Route.IsName s) :
    t.destination (.ofName (joinName directory s)) = s :: t.destination (.ofName directory) := by
  have hstep (l : Location) : step l s = s :: l := by rw [step, if_neg hs.ne_dot, if_neg hs.ne_dots]
  rw [Route.ofName_joinName directory hs, destination, List.foldl_concat, hstep]
  rfl

/-- Steps that stay where they are do not matter. -/
theorem foldl_step_parts (r : Route) (l : Location) :
    r.parts.foldl step l = r.steps.foldl step l := by
  have hfilter : ∀ (steps : List String) (l : Location),
      (steps.filter (· != ".")).foldl step l = steps.foldl step l := by
    intro steps l
    induction steps generalizing l with
    | nil => rfl
    | cons s rest ih =>
      rcases eq_or_ne s "." with rfl | hs
      · exact ih l
      · rw [List.filter_cons_of_pos (by simpa using hs)]
        exact ih (step l s)
  rw [Route.parts, List.foldl_append, hfilter]
  split <;> rfl

theorem mem_steps_of_mem_parts {r : Route} {s : String} (h : s ∈ r.parts) : s ∈ r.steps := by
  rcases List.mem_append.mp h with h | h
  · split at h
    · rename_i hdot
      rw [List.mem_singleton.mp h]
      exact List.mem_of_head? (eq_of_beq (Bool.and_eq_true_iff.mp hdot).2)
    · cases h
  · exact List.mem_of_mem_filter h

/-- A way that never goes up leads below where it begins. -/
theorem suffix_foldl_step {steps : List String} (hup : ".." ∉ steps) (l : Location) :
    l <:+ steps.foldl step l := by
  induction steps generalizing l with
  | nil => exact List.suffix_rfl
  | cons s rest ih =>
    rw [List.mem_cons, not_or] at hup
    have hstep : l <:+ step l s := by
      rw [step]
      split
      · exact List.suffix_rfl
      · rw [if_neg (Ne.symm hup.1)]
        exact List.suffix_cons s l
    exact hstep.trans (ih hup.2 _)

/-- What is on a way that never goes up is above its end. -/
theorem OnName.suffix {name : String} {k : Location} {n : Node} (h : t.OnName name k n)
    (hup : ".." ∉ (Route.ofName name).steps) : k <:+ t.destination (.ofName name) := by
  obtain ⟨-, xs, ⟨ys, hys⟩, rfl⟩ := h
  rw [destination, ← foldl_step_parts, ← hys, List.foldl_append]
  refine suffix_foldl_step (fun hmem => hup ?_) _
  exact mem_steps_of_mem_parts (hys ▸ List.mem_append_right xs hmem)

/-! ## Proper trees -/

/-- Everything is in a directory. -/
def IsProper (t : FileTree) : Prop := ∀ p ∈ t.nodes, t.find? p.1.tail = some .directory

instance (t : FileTree) : Decidable t.IsProper := inferInstanceAs (Decidable (∀ p ∈ t.nodes, _))

namespace IsProper

variable {k l : Location} {n : Node}

theorem find?_tail (h : t.IsProper) {s : String} (hl : t.find? (s :: l) = some n) :
    t.find? l = some .directory := by
  rw [find?, if_neg (List.cons_ne_nil s l)] at hl
  obtain ⟨xs, ys, hnodes, -⟩ := List.lookup_eq_some_iff.mp hl
  exact h (s :: l, n) (by rw [hnodes]; simp)

theorem exists_of_suffix (h : t.IsProper) (hl : t.find? l = some n) (hk : k <:+ l) :
    ∃ m, t.find? k = some m := by
  induction l generalizing n with
  | nil => exact ⟨n, List.suffix_nil.mp hk ▸ hl⟩
  | cons s l ih =>
    rcases List.suffix_cons_iff.mp hk with rfl | hk
    · exact ⟨n, hl⟩
    · exact ih (h.find?_tail hl) hk

end IsProper

/-- In a proper tree, a way that never goes up was open before the tree has grown, if something was
at its end. -/
theorem IsProper.resolve_of_keeps {r : Route} {l : Location} {n : Node} (h : t.IsProper)
    (hkeeps : t.Keeps t') (hup : ".." ∉ r.steps) (hl : t'.resolve r = .ok l)
    (hn : t.find? l = some n) : t.resolve r = .ok l := by
  have hend : l = r.steps.foldl step (t.origin r.absolute) :=
    (eq_destination hl).trans (hkeeps.grows.destination_eq r)
  rw [resolve_eq_ok_iff, hkeeps.grows.origin_eq] at hl
  rw [resolve_eq_ok_iff]
  refine hl.imp_left fun ⟨last, hlast, k, hk, hstep⟩ => ⟨last, hlast, k, ?_, hstep⟩
  obtain ⟨hk, hall⟩ := descend_eq_ok_iff.mp hk
  refine descend_eq_ok_iff.mpr ⟨hk, fun xs hxs hne => ?_⟩
  obtain ⟨ys, hys⟩ := hxs.trans (List.dropLast_prefix r.steps)
  have hsuffix : xs.foldl step (t.origin r.absolute) <:+ l := by
    rw [hend, ← hys, List.foldl_append]
    exact suffix_foldl_step (fun hmem => hup (hys ▸ List.mem_append_right xs hmem)) _
  obtain ⟨m, hm⟩ := h.exists_of_suffix hn hsuffix
  rw [hm, ← hkeeps.node hm]
  exact hall xs hxs hne

/-- In a proper tree, what a name that never goes up leads to later was there by that name. -/
theorem IsProper.exists_of_keeps {name : String} {l : Location} {n : Node} (h : t.IsProper)
    (hkeeps : t.Keeps t') (hup : ".." ∉ (Route.ofName name).steps)
    (hl : t'.resolve (Route.ofName name) = .ok l) (hn : t.find? l = some n)
    (hslash : (Route.ofName name).slash = true → n = .directory) : t.exists name = true :=
  exists_eq_true_iff.mpr
    ⟨n, stat_eq_ok_iff.mpr ⟨l, h.resolve_of_keeps hkeeps hup hl hn, hn, hslash⟩⟩

end PiecewiseGlyph.FileTree
