import PiecewiseGlyph.Proofs.Files
import PiecewiseGlyph.Proofs.Json.Records
import PiecewiseGlyph.Settings

/-!
# Settings are kept

Settings that are saved are loaded as they were: the choices made with their values, whatever
characters are in them, and no others.

* `Settings.stores_members` goes through the choices, of which any may be missing;
* `Settings.read_write` reads the written form back, if the number in it is read as what it is;
* `Settings.load_of_save` is the same through a file.
-/

namespace PiecewiseGlyph

open Json

namespace Settings

/-! ## The written form -/

/-- The member for a choice, if it is made. -/
def choiceMember {α : Type} (name : String) (f : α → Value) (choice : Option α) :
    List (String × Value) :=
  (choice.map fun a => (name, f a)).toList

/-- The members of the record. -/
def members (settings : Settings) : List (String × Value) :=
  choiceMember "normalization" .real settings.normalization ++
    (choiceMember "quadratic_fn" .string settings.quadraticName ++
      (choiceMember "cubic_fn" .string settings.cubicName ++
        choiceMember "emit_helpers" .bool settings.emitHelpers))

theorem toJson_eq_members (settings : Settings) : settings.toJson = .object settings.members := by
  simp only [toJson, members, choiceMember, List.append_assoc]

theorem choiceMember_sublist {α : Type} (name : String) (f : α → Value) (choice : Option α) :
    ((choiceMember name f choice).map Prod.fst).Sublist [name] := by
  cases choice with
  | none => exact List.nil_sublist _
  | some a => exact List.Sublist.refl _

/-- No key is written twice. -/
theorem nodup_members (settings : Settings) : (settings.members.map Prod.fst).Nodup := by
  have hkeys : (settings.members.map Prod.fst).Sublist
      (["normalization"] ++ (["quadratic_fn"] ++ (["cubic_fn"] ++ ["emit_helpers"]))) := by
    simp only [members, List.map_append]
    exact (choiceMember_sublist _ _ _).append ((choiceMember_sublist _ _ _).append
      ((choiceMember_sublist _ _ _).append (choiceMember_sublist _ _ _)))
  exact hkeys.nodup (by decide)

variable {depth : Nat}

/-- A choice is stored if it is made. -/
theorem stores_choiceMember {α : Type} {name : String} {f : α → Value} {choice : Option α}
    {field : Json.Field Settings} {s s' : Settings}
    (hfield : fields.find? (·.name == name) = some field)
    (hread : ∀ a ∈ choice, (field.read s).Reads ((f a).prettyAt depth).toList s')
    (hnone : choice = none → s = s') :
    Stores fields depth s (choiceMember name f choice) s' := by
  cases choice with
  | none =>
    rw [hnone rfl]
    exact .nil s'
  | some a => exact .cons hfield (hread a rfl) (.nil s')

/-- What begins with a quote or as a number is not null. -/
theorem head?_toList_quote_ne (s : String) : (quote s).toList.head? ≠ some 'n' := by
  rw [toList_quote]
  rintro ⟨⟩

theorem head?_ne_of_readNumber {text : List Char} {x : Float} (h : readNumber text = .ok (x, [])) :
    text.head? ≠ some 'n' := by
  obtain ⟨parts, hparts, -⟩ := bind_eq_ok.mp h
  obtain ⟨c, tail, rfl, hc⟩ := exists_startsNumber hparts
  rintro ⟨⟩
  cases hc

theorem head?_toList_writeBool_ne (b : Bool) : (writeBool b).toList.head? ≠ some 'n' := by
  cases b <;> rintro ⟨⟩

/-- Storing the members of settings in empty settings gives the settings. -/
theorem stores_members (settings : Settings)
    (hnumber : ∀ x ∈ settings.normalization, readNumber (writeReal x).toList = .ok (x, [])) :
    Stores fields depth empty settings.members settings := by
  obtain ⟨normalization, quadraticName, cubicName, emitHelpers⟩ := settings
  have hnormalization : Stores fields depth empty (choiceMember "normalization" .real normalization)
      ⟨normalization, none, none, none⟩ := by
    refine stores_choiceMember rfl ?_ (by rintro rfl; rfl)
    rintro x rfl
    have hx := hnumber x rfl
    exact ((readReal_reads hx).orNull (head?_ne_of_readNumber hx)).stored _ _ _
  have hquadratic : Stores fields depth ⟨normalization, none, none, none⟩
      (choiceMember "quadratic_fn" .string quadraticName)
      ⟨normalization, quadraticName, none, none⟩ := by
    refine stores_choiceMember rfl ?_ (by rintro rfl; rfl)
    rintro name rfl
    exact ((readText_reads name).orNull (head?_toList_quote_ne name)).stored _ _ _
  have hcubic : Stores fields depth ⟨normalization, quadraticName, none, none⟩
      (choiceMember "cubic_fn" .string cubicName)
      ⟨normalization, quadraticName, cubicName, none⟩ := by
    refine stores_choiceMember rfl ?_ (by rintro rfl; rfl)
    rintro name rfl
    exact ((readText_reads name).orNull (head?_toList_quote_ne name)).stored _ _ _
  have hhelpers : Stores fields depth ⟨normalization, quadraticName, cubicName, none⟩
      (choiceMember "emit_helpers" .bool emitHelpers)
      ⟨normalization, quadraticName, cubicName, emitHelpers⟩ := by
    refine stores_choiceMember rfl ?_ (by rintro rfl; rfl)
    rintro b rfl
    exact ((readFlag_reads b).orNull (head?_toList_writeBool_ne b)).stored _ _ _
  exact hnormalization.append (hquadratic.append (hcubic.append hhelpers))

/-- Settings are read back from their written form. -/
theorem read_write (settings : Settings)
    (hnumber : ∀ x ∈ settings.normalization, readNumber (writeReal x).toList = .ok (x, [])) :
    read settings.write = .ok settings := by
  rw [write, toJson_eq_members]
  exact readDocument_eq_ok ((stores_members settings hnumber).readRecord settings.nodup_members)

/-! ## Files -/

/-- Saving makes the directories of the file, and then writes it. -/
theorem exists_write_of_save {settings : Settings} {t t' : FileTree} {name : String}
    (h : settings.save t name = (t', .ok ())) :
    ∃ made, t.createParents name = (made, .ok ()) ∧ made.write name settings.write = .ok t' := by
  rcases hmade : t.createParents name with ⟨made, e | ⟨⟩⟩
  · simp only [save, hmade] at h
    cases (Prod.mk.inj h).2
  · refine ⟨made, rfl, ?_⟩
    cases hwrite : made.write name settings.write with
    | error e =>
      simp only [save, hmade, hwrite] at h
      cases (Prod.mk.inj h).2
    | ok written =>
      simp only [save, hmade, hwrite] at h
      rw [(Prod.mk.inj h).1]

/-- A file that cannot be saved leaves no more than directories. -/
theorem tree_of_save_eq_error {settings : Settings} {t t' : FileTree} {name : String}
    {e : FileError}
    (h : settings.save t name = (t', .error e)) : t' = (t.createParents name).1 := by
  rcases hmade : t.createParents name with ⟨made, e' | ⟨⟩⟩
  · simp only [save, hmade] at h
    exact (Prod.mk.inj h).1.symm
  · cases hwrite : made.write name settings.write with
    | error e' =>
      simp only [save, hmade, hwrite] at h
      exact (Prod.mk.inj h).1.symm
    | ok written =>
      simp only [save, hmade, hwrite] at h
      cases (Prod.mk.inj h).2

/-- **Settings that are saved are loaded as they were.** The normalization, if there is one, is a
finite number whose text is read as the number. -/
theorem load_of_save {settings : Settings} {t t' : FileTree} {name : String}
    (finite : ∀ x ∈ settings.normalization, x.isFinite = true)
    (readsBack : ∀ x ∈ settings.normalization, x.isFinite = true →
      readNumber (writeReal x).toList = .ok (x, []))
    (saved : settings.save t name = (t', .ok ())) :
    load t' name = .ok (some settings) := by
  obtain ⟨made, -, hwrite⟩ := exists_write_of_save saved
  have hread : t'.read name = .ok settings.write := FileTree.read_of_write hwrite
  have hsettings : read settings.write = .ok settings :=
    settings.read_write fun x hx => readsBack x hx (finite x hx)
  rw [load, if_pos (FileTree.exists_of_read hread), hread]
  refine bind_eq_ok.mpr ⟨_, rfl, ?_⟩
  rw [hsettings]
  rfl

/-- Not every number is read as what it is: a number is found in two roundings, of its digits and of
the power of ten. -/
example : readNumber (writeReal 3e23).toList ≠ .ok (3e23, []) := by decide +kernel

/-- Names of all kinds of characters, and a divisor, but no choice of helpers. -/
def unusual : Settings := ⟨some 0.1, some "\\\"\x00\n\x7fé𝔾\u2028", some "", none⟩

/-- A directory to work in. -/
def emptyHome : FileTree := ⟨[(["home"], .directory)], ["home"]⟩

theorem load_of_save_unusual :
    ∃ t', unusual.save emptyHome "a/b/settings.json" = (t', .ok ()) ∧
      load t' "a/b/settings.json" = .ok (some unusual) := by
  have hsaved : (unusual.save emptyHome "a/b/settings.json").2 = .ok () := by decide +kernel
  have hfinite : (0.1 : Float).isFinite = true := by decide +kernel
  have hreads : readNumber (writeReal 0.1).toList = .ok (0.1, []) := by decide +kernel
  exact ⟨_, Prod.ext rfl hsaved, load_of_save
    (by rintro x ⟨⟩; exact hfinite) (by rintro x ⟨⟩ -; exact hreads) (Prod.ext rfl hsaved)⟩

end Settings

end PiecewiseGlyph
