import PiecewiseGlyph.Json.Record
import PiecewiseGlyph.Proofs.Json.Values

/-!
# Reading records back

A record is read from an object that is written member by member: each member is stored in the field
of its name, and no name occurs twice.

* `readReal_reads`, `readText_reads`, `readFlag_reads` read values of one shape, and
  `Reader.Reads.orNull` those that may be null;
* `Stores` says what storing members one after another makes of a record, `Field` by `Field`;
* `Stores.readMembers` is the induction over the members, and `Stores.readRecord` reads the whole
  object.
-/

namespace PiecewiseGlyph.Json

/-! ## Values of one shape -/

theorem readReal_reads {text : List Char} {x : Float} (h : readNumber text = .ok (x, [])) :
    readReal.Reads text x := by
  obtain ⟨parts, hparts, -⟩ := bind_eq_ok.mp h
  obtain ⟨c, tail, htext, hc⟩ := exists_startsNumber hparts
  have houter := isOuter_of_startsNumber hc
  have hskips : readReal.SkipsBlanks := fun cs => by simp only [readReal, skipBlanks_skipBlanks]
  refine hskips.reads htext houter fun rest hrest => ?_
  simp only [readReal, skipBlanks_cons _ (isBlank_of_isOuter houter), if_pos hc]
  rw [← List.cons_append, ← htext]
  exact readNumber_isLocal _ _ _ _ h hrest

theorem readText_reads (s : String) : readText.Reads (quote s).toList s := by
  have hskips : readText.SkipsBlanks := fun cs => by simp only [readText, skipBlanks_skipBlanks]
  refine hskips.reads (toList_quote s) rfl fun rest _ => ?_
  rw [readText, skipBlanks_cons _ rfl]
  refine map_eq_ok.mpr ⟨_, readQuoted_quoted s rest, ?_⟩
  dsimp only
  rw [String.ofList_toList]

theorem readFlag_reads (b : Bool) : readFlag.Reads (writeBool b).toList b := by
  have hskips : readFlag.SkipsBlanks := fun cs => by simp only [readFlag, skipBlanks_skipBlanks]
  cases b with
  | true =>
    exact hskips.reads (show "true".toList = 't' :: "rue".toList from rfl) rfl fun _ _ => rfl
  | false =>
    exact hskips.reads (show "false".toList = 'f' :: "alse".toList from rfl) rfl fun _ _ => rfl

/-- A value that is not null is read as itself. -/
theorem Reader.Reads.orNull {α : Type} {r : Reader α} {text : List Char} {a : α}
    (h : r.Reads text a) (hnull : text.head? ≠ some 'n') : (orNull r).Reads text (some a) := by
  obtain ⟨c, tail, rfl, hc⟩ := h.begins
  have hskips : (Json.orNull r).SkipsBlanks := fun cs => by
    simp only [Json.orNull, skipBlanks_skipBlanks]
  have hne : c ≠ 'n' := fun hcn => hnull (congrArg some hcn)
  refine hskips.reads rfl hc fun rest hrest => ?_
  simp only [Json.orNull, skipBlanks_cons _ (isBlank_of_isOuter hc), if_neg hne]
  exact map_eq_ok.mpr ⟨_, h.reads [] rest nofun hrest, rfl⟩

/-! ## Members -/

variable {σ : Type}

/-- What is read is stored. -/
theorem Reader.Reads.stored {α : Type} {r : Reader α} {hr : r.NeverGrows} {text : List Char} {a : α}
    (h : r.Reads text a) (name : String) (store : σ → α → σ) (s : σ) :
    ((Field.of name r hr store).read s).Reads text (store s a) :=
  ⟨h.begins, fun blanks rest hblanks hrest =>
    map_eq_ok.mpr ⟨_, h.reads blanks rest hblanks hrest, rfl⟩⟩

/-- Members that are stored in a record one after another, each in the field of its name. -/
inductive Stores (fields : List (Field σ)) (depth : Nat) : σ → List (String × Value) → σ → Prop
  | nil (s : σ) : Stores fields depth s [] s
  | cons {s s₁ s₂ : σ} {field : Field σ} {key : String} {v : Value}
      {members : List (String × Value)} (hfield : fields.find? (·.name == key) = some field)
      (hread : (field.read s).Reads (v.prettyAt depth).toList s₁)
      (h : Stores fields depth s₁ members s₂) : Stores fields depth s ((key, v) :: members) s₂

variable {fields : List (Field σ)} {depth : Nat} {s s₁ s₂ : σ} {members : List (String × Value)}

theorem Stores.append {more : List (String × Value)} (h : Stores fields depth s members s₁)
    (hmore : Stores fields depth s₁ more s₂) : Stores fields depth s (members ++ more) s₂ := by
  induction h with
  | nil => exact hmore
  | cons hfield hread _ ih => exact .cons hfield hread (ih hmore)

/-- The value of a member is read and stored. -/
theorem readMember_eq {field : Field σ} {key : String} {seen : List String} {text rest : List Char}
    (hfield : fields.find? (·.name == key) = some field) (hkey : key ∉ seen)
    (hread : (field.read s).Reads text s₁) (hrest : EndsValue rest) :
    readMember fields seen s key (':' :: ' ' :: (text ++ rest)) = .ok (s₁, rest) := by
  have hcontains : seen.contains key = false := by simpa using hkey
  simp only [readMember, hfield, hcontains, Bool.false_eq_true, if_false]
  exact bind_eq_ok.mpr ⟨_, rfl, hread.reads [' '] rest (by simp [isBlank]) hrest⟩

/-- An object ends with its bracket. -/
theorem readMembers_of_close {first : Bool} {seen : List String} {cs rest : List Char}
    (h : skipBlanks cs = '\x7d' :: rest) :
    readMembers fields first seen s cs = .ok (s, rest) := by
  rw [readMembers]
  split
  · rename_i hs
    cases hs.symm.trans h
  · rename_i c rest' hs
    obtain ⟨rfl, rfl⟩ := List.cons.inj (hs.symm.trans h)
    exact if_pos rfl

/-- A member is read, and then those that follow it. -/
theorem readMembers_of_key {first : Bool} {seen : List String} {key : String} {c : Char}
    {cs tail left rest : List Char} (hcs : skipBlanks cs = c :: tail) (hc : c ≠ '\x7d')
    (hkey : readKey first (c :: tail) = .ok (key, left))
    (hmember : readMember fields seen s key left = .ok (s₁, rest)) :
    readMembers fields first seen s cs = readMembers fields false (key :: seen) s₁ rest := by
  rw [readMembers]
  split
  · rename_i hs
    cases hs.symm.trans hcs
  · rename_i c' tail' hs
    obtain ⟨rfl, rfl⟩ := List.cons.inj (hs.symm.trans hcs)
    rw [if_neg hc]
    split
    · rename_i e he
      cases he.symm.trans hkey
    · rename_i key' left' hk
      cases hk.symm.trans hkey
      split
      · rename_i e he
        cases he.symm.trans hmember
      · rename_i s' rest' hm
        cases hm.symm.trans hmember
        rfl

section Layout

variable {line last : List Char}

/-- Members after the first are read up to the closing bracket. -/
theorem Stores.readMembers (hline : ∀ c ∈ line, isBlank c = true)
    (hlast : ∀ c ∈ last, isBlank c = true) (h : Stores fields depth s members s₂)
    (hnodup : (members.map Prod.fst).Nodup) {seen : List String}
    (hseen : ∀ member ∈ members, member.1 ∉ seen) (rest : List Char) :
    readMembers fields false seen s
        (moreItems line ((members.map (Value.prettyMember depth)).map String.toList) ++
          (last ++ '\x7d' :: rest)) = .ok (s₂, rest) := by
  induction h generalizing seen with
  | nil s =>
    rw [List.map_nil, List.map_nil, moreItems_nil, List.nil_append]
    exact readMembers_of_close (skipBlanks_append_cons hlast rfl rest)
  | @cons s s₁ s₂ field key v members hfield hread _ ih =>
    have hend : EndsValue (last ++ '\x7d' :: rest) :=
      EndsValue.append hlast (endsValue_cons.mpr rfl)
    rw [List.map_cons, List.nodup_cons] at hnodup
    have hkey : key ∉ seen := hseen _ List.mem_cons_self
    have hseen' : ∀ member ∈ members, member.1 ∉ key :: seen := fun member hmember =>
      List.not_mem_cons_of_ne_of_not_mem
        (fun heq => hnodup.1 (List.mem_map.mpr ⟨member, hmember, heq⟩))
        (hseen member (List.mem_cons_of_mem _ hmember))
    rw [List.map_cons, List.map_cons, moreItems_cons, toList_prettyMember]
    simp only [List.cons_append, List.append_assoc]
    rw [readMembers_of_key (skipBlanks_cons _ rfl) (by decide) (readKey_comma_quoted hline key _)
      (readMember_eq hfield hkey hread (endsValue_moreItems line _ hend))]
    exact ih hnodup.2 hseen'

end Layout

/-- Members are read from after the opening bracket. -/
theorem Stores.readMembers_enclosed (h : Stores fields (depth + 1) s members s₂)
    (hnodup : (members.map Prod.fst).Nodup) (rest : List Char) :
    Json.readMembers fields true [] s
      (Value.enclosed depth '\x7d' (members.map (Value.prettyMember (depth + 1))) ++ rest) =
        .ok (s₂, rest) := by
  cases h with
  | nil => exact readMembers_of_close rfl
  | @cons _ s₁ _ field key v members hfield hread h =>
    rw [List.map_cons, List.nodup_cons] at hnodup
    have hseen : ∀ member ∈ members, member.1 ∉ [key] := fun member hmember hkey =>
      hnodup.1 (List.mem_map.mpr ⟨member, hmember, List.mem_singleton.mp hkey⟩)
    have hline := Value.isBlank_indent (depth + 1)
    have hlast := Value.isBlank_indent depth
    have hend : EndsValue ((Value.indent depth).toList ++ '\x7d' :: rest) :=
      EndsValue.append hlast (endsValue_cons.mpr rfl)
    rw [List.map_cons, Value.enclosed, toList_prettyMember]
    simp only [List.cons_append, List.append_assoc, List.nil_append]
    rw [readMembers_of_key (skipBlanks_append_cons hline rfl _) (by decide) (readKey_quoted key _)
      (readMember_eq hfield List.not_mem_nil hread (endsValue_moreItems _ _ hend))]
    exact h.readMembers hline hlast hnodup.2 hseen rest

/-- A record is read from an object whose members are stored in it, if no key occurs twice. -/
theorem Stores.readRecord (h : Stores fields (depth + 1) s members s₂)
    (hnodup : (members.map Prod.fst).Nodup) :
    (readRecord fields s).Reads ((Value.object members).prettyAt depth).toList s₂ := by
  have hskips : (Json.readRecord fields s).SkipsBlanks := fun cs => by
    simp only [Json.readRecord, skipBlanks_skipBlanks]
  rw [Value.prettyAt, Value.prettyMembers_eq_map]
  exact hskips.reads (Value.toList_enclose depth '\x7b' '\x7d' rfl rfl _) rfl fun rest _ =>
    h.readMembers_enclosed hnodup rest

end PiecewiseGlyph.Json
