import PiecewiseGlyph.Proofs.Joining
import PiecewiseGlyph.Proofs.Range

/-!
# Where faults are

A fault of path data names a letter and a position in bytes. What stands there is its cause:
everything before it is read, and what stands there has the same fault without what follows.

* `Stretch.HasFault` says what a fault of one stretch names, and `Stretch.hasFault_of_tokens` that
  it does;
* `Phrase.Denotes.overflow_eq`: what a phrase draws overflows at its position, under its own letter
  or under that of the line which a repeated move or a closing stands for;
* `Sentence.exists_of_follow` finds the phrase that leaves the range;
* `PathError.IsAt` is what a fault says about its position, and `exists_isAt` that all faults do,
  those of reading (`exists_isAt_of_tokenize`) and those of drawing (`exists_isAt_of_ofTokens`);
* `Formula.faults_of_ofPathData`: so the faults of formulas point at their causes, and it can be
  told from the data which of them are commands that are not handled.
-/

namespace PiecewiseGlyph

variable {α : Type} [Scalar α]

/-- The outline of path data. -/
def Outline.ofPathData (data : String) : Except PathError (Outline α) :=
  (parsePath data).bind Outline.ofTokens

/-! ## Faults of reading -/

namespace Stretch

variable {s : Stretch} {e : PathError}

/-- A fault of reading a stretch names its letter and its position. It is that of an unsupported
command exactly if the letter is one. -/
structure HasFault (s : Stretch) (e : PathError) : Prop where
  command : e.command = s.letter
  offset : e.offset = s.offset
  unsupported : e.cause = .unsupported ↔ s.letter ∈ Command.unsupportedLetters
  cause : e.cause ≠ .coordinateOverflow

theorem command_eq_error (h : s.command = .error e) :
    e = ⟨s.letter, s.offset,
      if Command.unsupportedLetters.contains s.letter then .unsupported else .unknownLetter⟩ := by
  rw [command] at h
  split at h
  · cases h
  · cases h
    rfl

theorem argument_eq_error {piece : List Char} (h : s.argument (α := α) piece = .error e) :
    e = ⟨s.letter, s.offset, .invalidNumber (String.ofList piece)⟩ := by
  rw [argument] at h
  split at h
  · cases h
  · cases h
    rfl

end Stretch

/-- No letter is both handled and not. -/
theorem Command.letter_not_mem_unsupportedLetters (command : Command) :
    command.letter ∉ unsupportedLetters := by
  cases command <;> decide

namespace Stretch

variable {s : Stretch} {e : PathError}

/-- The faults of a command that is handled. -/
theorem hasFault_of_letter {command : Command} (hletter : command.letter = s.letter)
    {cause : PathError.Cause} (hunsupported : cause ≠ .unsupported)
    (hoverflow : cause ≠ .coordinateOverflow) : s.HasFault ⟨s.letter, s.offset, cause⟩ := by
  refine ⟨rfl, rfl, ⟨fun h => absurd h hunsupported, fun h => ?_⟩, hoverflow⟩
  rw [← hletter] at h
  exact absurd h command.letter_not_mem_unsupportedLetters

theorem hasFault_of_tokens (h : s.tokens (α := α) = .error e) : s.HasFault e := by
  rw [tokens] at h
  rcases bind_eq_error.mp h with hcommand | ⟨command, hcommand, h⟩
  · rw [command_eq_error hcommand]
    by_cases hs : s.letter ∈ Command.unsupportedLetters
    · rw [if_pos (List.contains_iff_mem.mpr hs)]
      exact ⟨rfl, rfl, ⟨fun _ => hs, fun _ => rfl⟩, PathError.Cause.noConfusion⟩
    · rw [if_neg (mt List.contains_iff_mem.mp hs)]
      exact ⟨rfl, rfl, ⟨PathError.Cause.noConfusion, fun h => absurd h hs⟩,
        PathError.Cause.noConfusion⟩
  have hletter := command_eq_ok_iff.mp hcommand
  rcases bind_eq_error.mp h with hargs | ⟨args, -, h⟩
  · obtain ⟨-, piece, -, -, -, hpiece⟩ := mapM_eq_error_iff.mp hargs
    rw [argument_eq_error hpiece]
    exact hasFault_of_letter hletter PathError.Cause.noConfusion PathError.Cause.noConfusion
  · split at h
    · cases h
    · cases h
      exact hasFault_of_letter hletter PathError.Cause.noConfusion PathError.Cause.noConfusion

/-- A letter that is not handled is a fault. -/
theorem tokens_of_mem_unsupportedLetters (hs : s.letter ∈ Command.unsupportedLetters) :
    s.tokens (α := α) = .error ⟨s.letter, s.offset, .unsupported⟩ := by
  cases htokens : s.tokens (α := α) with
  | ok tokens =>
    obtain ⟨command, hcommand, -⟩ := bind_eq_ok.mp htokens
    rw [← command_eq_ok_iff.mp hcommand] at hs
    exact absurd hs command.letter_not_mem_unsupportedLetters
  | error e =>
    obtain ⟨hcommand, hoffset, hunsupported, -⟩ := hasFault_of_tokens htokens
    rw [← hcommand, ← hoffset, ← hunsupported.mpr hs]

end Stretch

/-! ## Faults of drawing -/

/-- A token that is left when closings are resolved was there before, or is a line in the place of a
closing. -/
theorem exists_of_mem_closeContoursFrom {way : Point α} {tokens : List (Token α)} {t : Token α}
    (ht : t ∈ closeContoursFrom way tokens) :
    t ∈ tokens ∨ ∃ token ∈ tokens, token.command = .close ∧ t.command = .line ∧
      t.offset = token.offset := by
  induction tokens generalizing way with
  | nil => cases ht
  | cons token rest ih =>
    rw [closeContoursFrom_cons] at ht
    rcases List.mem_append.mp ht with ht | ht
    · rw [resolve] at ht
      split at ht
      · rename_i hclose
        split at ht
        · cases ht
        · rw [List.mem_singleton.mp ht]
          exact .inr ⟨token, List.mem_cons_self, hclose, rfl, rfl⟩
      · rw [List.mem_singleton.mp ht]
        exact .inl List.mem_cons_self
    · rcases ih ht with ht | ⟨token', htoken', h⟩
      · exact .inl (List.mem_cons_of_mem token ht)
      · exact .inr ⟨token', List.mem_cons_of_mem token htoken', h⟩

namespace Phrase

variable {p : Phrase} {offset : Nat} {tokens : List (Token α)}

/-- All tokens of a phrase are at its position and have its command, but for the lines of a repeated
move. -/
theorem Denotes.of_mem (h : p.Denotes offset tokens) {token : Token α} (htoken : token ∈ tokens) :
    token.offset = offset ∧ (token.command = p.command ∨
      p.command = .move ∧ token.command = .line ∧ 1 < tokens.length) := by
  obtain ⟨uses, -, hne, -, -, rfl⟩ := h.uses
  cases uses with
  | nil => exact absurd rfl hne
  | cons first more =>
    rcases List.mem_cons.mp htoken with rfl | htoken
    · exact ⟨rfl, .inl rfl⟩
    · obtain ⟨args, hargs, rfl⟩ := List.mem_map.mp htoken
      refine ⟨rfl, ?_⟩
      have hlength : 1 < (p.tokens offset (first :: more)).length := by
        have hmore := List.length_pos_of_mem hargs
        rw [Phrase.tokens, List.length_cons, List.length_map]
        omega
      cases hcommand : p.command with
      | move => exact .inr ⟨rfl, rfl, hlength⟩
      | _ => exact .inl rfl

/-- The letter that an overflow is reported under: the line that a repeated move or a closing stands
for has its own. -/
def overflowLetter (p : Phrase) : Char :=
  if p.command = .move ∨ p.command = .close then 'l' else p.command.letter

/-- What is drawn by a phrase overflows at its position, and at a move only if it is repeated. -/
theorem Denotes.overflow_eq (h : p.Denotes offset tokens) {way : Point α} {t : Token α}
    (ht : t ∈ closeContoursFrom way tokens) (hdraws : t.command.draws = true) :
    t.overflow = ⟨p.overflowLetter, offset, .coordinateOverflow⟩ ∧
      (p.command = .move → 1 < tokens.length) := by
  rw [Token.overflow, overflowLetter]
  rcases exists_of_mem_closeContoursFrom ht with ht | ⟨token, htoken, hclose, hline, hoffset⟩
  · obtain ⟨rfl, hcommand | ⟨hmove, hline, hlength⟩⟩ := h.of_mem ht
    · rw [hcommand] at hdraws ⊢
      have hmove : p.command ≠ .move := fun h => by rw [h] at hdraws; cases hdraws
      have hclose : p.command ≠ .close := fun h => by rw [h] at hdraws; cases hdraws
      rw [if_neg (not_or.mpr ⟨hmove, hclose⟩)]
      exact ⟨rfl, fun h => absurd h hmove⟩
    · rw [if_pos (.inl hmove), hline]
      exact ⟨rfl, fun _ => hlength⟩
  · obtain ⟨hphrase, hcommand | ⟨-, hcommand, -⟩⟩ := h.of_mem htoken
    · rw [hclose] at hcommand
      rw [if_pos (.inr hcommand.symm), hline, hoffset, hphrase, ← hcommand]
      exact ⟨rfl, Command.noConfusion⟩
    · rw [hclose] at hcommand
      cases hcommand

end Phrase

/-- Phrases mean what their parts mean, one after the other. -/
theorem Sentence.concat {offset : Nat} {phrases : List Phrase} {tokens own : List (Token α)}
    {p : Phrase} (h : Sentence offset phrases tokens)
    (hp : p.Denotes (offset + Text.byteLength (phrases.flatMap Phrase.written)) own) :
    Sentence offset (phrases ++ [p]) (tokens ++ own) := by
  induction h with
  | nil offset =>
    have hlast := Sentence.cons hp (.nil _)
    rwa [List.append_nil] at hlast
  | cons first others ih =>
    rw [List.flatMap_cons, Text.byteLength_append, ← Nat.add_assoc] at hp
    have hall := Sentence.cons first (ih hp)
    rwa [← List.append_assoc] at hall

/-- **Where drawing fails, it fails at a phrase**: what the phrases before it mean is drawn. The
walk over the closings goes on from one phrase to the next. -/
theorem Sentence.exists_of_follow {offset : Nat} {phrases : List Phrase} {tokens : List (Token α)}
    (h : Sentence offset phrases tokens) {pen : Pen α} {way : Point α} {e : PathError}
    (he : pen.follow (closeContoursFrom way tokens) = .error e) :
    ∃ (before : List Phrase) (p : Phrase) (after : List Phrase) (lead own : List (Token α)),
      phrases = before ++ p :: after ∧ Sentence offset before lead ∧
      p.Denotes (offset + Text.byteLength (before.flatMap Phrase.written)) own ∧
      (∃ result, pen.follow (closeContoursFrom way lead) = .ok result) ∧
      pen.follow (closeContoursFrom way (lead ++ own)) = .error e ∧
      e = ⟨p.overflowLetter, offset + Text.byteLength (before.flatMap Phrase.written),
        .coordinateOverflow⟩ ∧
      (p.command = .move → 1 < own.length) := by
  induction h generalizing pen way with
  | nil => cases he
  | @cons offset p rest tokens more first others ih =>
    rw [closeContoursFrom_append] at he
    rcases Pen.follow_append_eq_error_iff.mp he with he | ⟨pen₁, drawn, hok, he⟩
    · have hdrawable := isDrawable_of_mem_closeContoursFrom
        (fun token htoken _ => (first.length_args htoken).1) way
      obtain ⟨t, ht, hdraws, rfl⟩ := Pen.error_of_follow hdrawable he
      obtain ⟨hoverflow, hmove⟩ := first.overflow_eq ht hdraws
      exact ⟨[], p, rest, [], tokens, rfl, .nil offset, first, ⟨_, rfl⟩, he, hoverflow, hmove⟩
    · obtain ⟨before, q, after, lead, own, rfl, hbefore, hq, ⟨⟨pen₂, segments⟩, hresult⟩,
        hfault, rfl, hmove⟩ := ih he
      have hlength : offset + Text.byteLength ((p :: before).flatMap Phrase.written) =
          offset + Text.byteLength p.written + Text.byteLength (before.flatMap Phrase.written) := by
        rw [List.flatMap_cons, Text.byteLength_append, Nat.add_assoc]
      refine ⟨p :: before, q, after, tokens ++ lead, own, rfl, .cons first hbefore, hlength ▸ hq,
        ⟨(pen₂, drawn ++ segments), ?_⟩, ?_, ?_, hmove⟩
      · rw [closeContoursFrom_append]
        exact Pen.follow_append_eq_ok_iff.mpr ⟨pen₁, drawn, segments, hok, hresult, rfl⟩
      · rw [List.append_assoc, closeContoursFrom_append]
        exact Pen.follow_append_eq_error_iff.mpr (.inr ⟨pen₁, drawn, hok, hfault⟩)
      · rw [hlength]

/-! ## What stands at the position -/

/-- What a fault says about its position: what stands there has it, and nothing before it has
one. -/
structure PathError.IsAt (α : Type) [Scalar α] (e : PathError) (before : List Char) (c : Char)
    (text : List Char) : Prop where
  /-- The position is where a character begins. -/
  offset : e.offset = Text.byteLength before
  /-- What belongs to the character ends before the next command letter. -/
  one : ∀ x ∈ text, startsCommand x = false
  /-- All commands before the position are read. -/
  intact : ∃ tokens : List (Token α), tokenize (String.ofList before) = .ok tokens
  /-- The fault is there without what follows. -/
  fault : (Outline.ofPathData (String.ofList (before ++ c :: text)) :
    Except PathError (Outline α)) = .error e
  /-- The cause is that the command is not handled exactly if the character is such a letter. -/
  unsupported : e.cause = .unsupported ↔ c ∈ Command.unsupportedLetters
  /-- A fault of reading names the character. -/
  command : e.cause ≠ .coordinateOverflow → e.command = c
  /-- An overflow is that of a phrase, and all before it is drawn. It names the letter of the
  phrase, unless this is a closing, or a move with more than one pair of numbers, where it is a line
  that overflows. -/
  overflow : e.cause = .coordinateOverflow →
    (∃ outline : Outline α, Outline.ofPathData (String.ofList before) = .ok outline) ∧
    ∃ (p : Phrase) (tokens : List (Token α)), p.written = c :: text ∧ p.Denotes e.offset tokens ∧
      e.command = (if p.command = .move ∨ p.command = .close then 'l' else c) ∧
      (p.command = .move → 1 < tokens.length)

theorem Outline.ofPathData_of_tokenize_error {data : String} {e : PathError}
    (h : (tokenize data : Except PathError (List (Token α))) = .error e) :
    (ofPathData data : Except PathError (Outline α)) = .error e := by
  rw [ofPathData, parsePath, h]
  rfl

/-- The fault of a text without commands is its first character that is no blank. -/
theorem exists_of_strayText? {lead : List Char} {e : PathError} (h : strayText? lead = some e) :
    ∃ blanks c cs, lead = blanks ++ c :: cs ∧ (∀ x ∈ blanks, Text.isBlank x = true) ∧
      e.command = c ∧ e.offset = Text.byteLength blanks ∧ e.cause ≠ .coordinateOverflow ∧
      e.cause ≠ .unsupported := by
  have happend := Text.upTo_fst_append_snd (! Text.isBlank ·) lead
  rw [strayText?] at h
  split at h
  · cases h
  · rename_i blanks c cs hcut
    cases h
    rw [hcut] at happend
    refine ⟨blanks, c, cs, happend.symm, fun x hx => ?_, rfl, rfl, PathError.Cause.noConfusion,
      PathError.Cause.noConfusion⟩
    have hfirst : x ∈ (Text.upTo (! Text.isBlank ·) lead).1 := by rwa [hcut]
    simpa using Text.of_mem_upTo_fst hfirst

/-- Letters that are not handled start commands. -/
theorem startsCommand_of_mem_unsupportedLetters {c : Char} (hc : c ∈ Command.unsupportedLetters) :
    startsCommand c = true := by
  have hall : Command.unsupportedLetters.all startsCommand = true := by decide
  exact List.all_eq_true.mp hall c hc

/-- A command letter with its text has the fault of its stretch. -/
theorem hasFault_of_tokenize {faulty : String} {c : Char} {text : List Char} {own : PathError}
    (hfaulty : faulty.toList = c :: text) (hc : startsCommand c = true)
    (htext : ∀ x ∈ text, startsCommand x = false)
    (h : (tokenize faulty : Except PathError (List (Token α))) = .error own) :
    Stretch.HasFault ⟨c, 0, text⟩ own := by
  have hbegins : BeginsCommand faulty.toList := by
    rw [hfaulty]
    rintro x ⟨⟩
    exact hc
  rw [tokenize_of_beginsCommand hbegins, hfaulty, stretches_singleton _ _ htext, readStretches] at h
  rcases bind_eq_error.mp h with h | ⟨tokens, -, h⟩
  · exact Stretch.hasFault_of_tokens h
  · cases h

/-- A text without command letters has no fault but a stray character. -/
theorem strayText?_of_tokenize {data : String} {e : PathError}
    (hdata : ∀ x ∈ data.toList, startsCommand x = false)
    (h : (tokenize data : Except PathError (List (Token α))) = .error e) :
    strayText? data.toList = some e := by
  simp only [tokenize, Text.upTo_eq_self hdata] at h
  cases hstray : strayText? data.toList with
  | some stray =>
    rw [hstray] at h
    cases h
    rfl
  | none =>
    rw [hstray] at h
    simp only [stretches, readStretches] at h
    cases h

/-- Blanks and phrases are read as what the phrases mean. -/
theorem tokenize_of_sentence {lead : List Char} {phrases : List Phrase} {tokens : List (Token α)}
    (hlead : ∀ x ∈ lead, Text.isBlank x = true)
    (h : Sentence (Text.byteLength lead) phrases tokens) :
    tokenize (String.ofList (lead ++ phrases.flatMap Phrase.written)) = .ok tokens :=
  tokenize_eq_ok_iff_sentence.mpr ⟨lead, phrases, String.toList_ofList, hlead, h⟩

/-- Blanks are path data without commands. -/
theorem tokenize_of_blank {blanks : List Char} (h : ∀ x ∈ blanks, Text.isBlank x = true) :
    (tokenize (String.ofList blanks) : Except PathError (List (Token α))) = .ok [] := by
  have hnone := tokenize_of_sentence (α := α) h (.nil _)
  rwa [List.flatMap_nil, List.append_nil] at hnone

/-- What is read with a fault is not drawn. -/
theorem IsFaultOf.ofPathData_eq_error {before faulty : String} {e : PathError}
    (h : IsFaultOf α e before faulty) :
    (Outline.ofPathData (before ++ faulty) : Except PathError (Outline α)) = .error e := by
  have hlast := h.lasting "" (by rintro x ⟨⟩)
  rw [String.append_empty] at hlast
  exact Outline.ofPathData_of_tokenize_error hlast

/-- The fault of a command is at its letter. -/
theorem IsFaultOf.isAt_letter {before faulty : String} {c : Char} {text : List Char} {e : PathError}
    (h : IsFaultOf α e before faulty) (hfaulty : faulty.toList = c :: text)
    (hc : startsCommand c = true) : e.IsAt α before.toList c text := by
  have hdrawn := h.ofPathData_eq_error
  obtain ⟨own, hown, rfl⟩ := h.own
  have hone := h.one
  rw [hfaulty, List.tail_cons] at hone
  obtain ⟨hcommand, hoffset, hunsupported, hcause⟩ := hasFault_of_tokenize hfaulty hc hone hown
  refine ⟨?_, hone, ?_, ?_, hunsupported, fun _ => hcommand, fun h => absurd h hcause⟩
  · rw [PathError.shift, hoffset, Text.byteLength_toList, Nat.zero_add]
  · rw [String.ofList_toList]
    exact h.intact
  · rwa [← hfaulty, ← String.toList_append, String.ofList_toList]

/-- The fault of a text before all commands is at its first character that is no blank. -/
theorem IsFaultOf.exists_isAt_stray {faulty : String} {e : PathError} (h : IsFaultOf α e "" faulty)
    (hnone : ∀ x ∈ faulty.toList, startsCommand x = false) :
    ∃ blanks c stray, faulty.toList = blanks ++ c :: stray ∧ e.IsAt α blanks c stray := by
  have hdrawn := h.ofPathData_eq_error
  obtain ⟨own, hown, rfl⟩ := h.own
  obtain ⟨blanks, c, stray, hsplit, hblanks, hcommand, hoffset, hcause, hsupported⟩ :=
    exists_of_strayText? (strayText?_of_tokenize hnone hown)
  rw [hsplit] at hnone
  obtain ⟨-, hc, hstray⟩ := List.forall_mem_append.mp hnone |>.imp_right List.forall_mem_cons.mp
  refine ⟨blanks, c, stray, hsplit, hoffset, hstray, ⟨[], tokenize_of_blank hblanks⟩, ?_, ?_,
    fun _ => hcommand, fun h => absurd h hcause⟩
  · rwa [← hsplit, String.ofList_toList, ← String.empty_append (s := faulty)]
  · refine ⟨fun h => absurd h hsupported, fun h => ?_⟩
    rw [startsCommand_of_mem_unsupportedLetters h] at hc
    cases hc

/-- A fault of reading is at the leftmost faulty command, or at the first stray character. -/
theorem exists_isAt_of_tokenize {data : String} {e : PathError}
    (h : (tokenize data : Except PathError (List (Token α))) = .error e) :
    ∃ before c text after, data.toList = before ++ c :: text ++ after ∧ e.IsAt α before c text := by
  obtain ⟨before, faulty, after, rfl, hfault⟩ := exists_isFaultOf h
  cases hchars : faulty.toList with
  | nil =>
    obtain ⟨own, hown, -⟩ := hfault.own
    rw [String.toList_eq_nil_iff.mp hchars, tokenize_empty] at hown
    cases hown
  | cons c text =>
    by_cases hc : startsCommand c = true
    · refine ⟨before.toList, c, text, after.toList, ?_, hfault.isAt_letter hchars hc⟩
      rw [String.toList_append, String.toList_append, hchars]
    · -- without a command letter there is nothing before
      have hbefore : before = "" :=
        hfault.begins.resolve_right fun h => hc (h c (by rw [hchars]; rfl))
      subst hbefore
      have hone := hfault.one
      rw [hchars, List.tail_cons] at hone
      have hnone : ∀ x ∈ faulty.toList, startsCommand x = false := by
        rw [hchars]
        exact List.forall_mem_cons.mpr ⟨Bool.not_eq_true _ ▸ hc, hone⟩
      obtain ⟨blanks, d, stray, hsplit, hat⟩ := hfault.exists_isAt_stray hnone
      refine ⟨blanks, d, stray, after.toList, ?_, hat⟩
      rw [String.empty_append, String.toList_append, hsplit]

/-- A fault of drawing is at the phrase that leaves the range. -/
theorem exists_isAt_of_ofTokens {data : String} {tokens : List (Token α)} {e : PathError}
    (htokens : tokenize data = .ok tokens)
    (h : Outline.ofTokens (closeContours tokens) = .error e) :
    ∃ before c text after, data.toList = before ++ c :: text ++ after ∧ e.IsAt α before c text := by
  obtain ⟨lead, phrases, hdata, hlead, hsentence⟩ := tokenize_eq_ok_iff_sentence.mp htokens
  obtain ⟨before, p, after, first, own, rfl, hbefore, hp, ⟨⟨pen, segments⟩, hresult⟩, hfault, rfl,
    hmove⟩ := hsentence.exists_of_follow (Outline.ofTokens_eq_error_iff.mp h)
  have hintact := tokenize_of_sentence hlead hbefore
  have hwhole := tokenize_of_sentence hlead (hbefore.concat hp)
  rw [List.flatMap_append, List.flatMap_singleton, ← List.append_assoc] at hwhole
  refine ⟨lead ++ before.flatMap Phrase.written, p.command.letter, p.text,
    after.flatMap Phrase.written, ?_, ?_, ?_, ⟨first, hintact⟩, ?_, ?_, fun h => absurd rfl h,
    fun _ => ⟨⟨⟨segments⟩, ?_⟩, p, own, rfl, hp, rfl, hmove⟩⟩
  · rw [hdata, List.flatMap_append, List.flatMap_cons, List.append_assoc, List.append_assoc,
      Phrase.written]
  · rw [Text.byteLength_append]
  · exact fun x hx => (startsCommand_eq_false_iff x).mpr (hp.letters x hx)
  · refine bind_eq_error.mpr (.inr ⟨_, map_eq_ok.mpr ⟨_, hwhole, rfl⟩, ?_⟩)
    exact Outline.ofTokens_eq_error_iff.mpr hfault
  · refine ⟨fun h => ?_, fun h => absurd h p.command.letter_not_mem_unsupportedLetters⟩
    cases h
  · refine bind_eq_ok.mpr ⟨_, map_eq_ok.mpr ⟨_, hintact, rfl⟩, ?_⟩
    exact Outline.ofTokens_eq_ok_iff.mpr ⟨pen, hresult⟩

/-- **A fault is at its cause**, whether the data cannot be read or cannot be drawn. -/
theorem exists_isAt {data : String} {e : PathError}
    (h : (Outline.ofPathData data : Except PathError (Outline α)) = .error e) :
    ∃ before c text after, data.toList = before ++ c :: text ++ after ∧ e.IsAt α before c text := by
  rcases bind_eq_error.mp h with hread | ⟨tokens, hread, hdraw⟩
  · exact exists_isAt_of_tokenize (map_eq_error.mp hread)
  · obtain ⟨written, hwritten, rfl⟩ := map_eq_ok.mp hread
    exact exists_isAt_of_ofTokens hwritten hdraw

/-! ## Commands that are not handled -/

/-- Behind blanks and phrases that are read, a letter that is not handled is the fault. -/
theorem tokenize_unsupported {lead : List Char} {phrases : List Phrase} {tokens : List (Token α)}
    {c : Char} (hlead : ∀ x ∈ lead, Text.isBlank x = true)
    (h : Sentence (Text.byteLength lead) phrases tokens) (hc : c ∈ Command.unsupportedLetters)
    {data : String} {after : List Char}
    (hdata : data.toList = lead ++ phrases.flatMap Phrase.written ++ c :: after) :
    (tokenize data : Except PathError (List (Token α))) =
      .error ⟨c, Text.byteLength (lead ++ phrases.flatMap Phrase.written), .unsupported⟩ := by
  have hbegins : BeginsCommand (c :: after) := by
    rintro x ⟨⟩
    exact startsCommand_of_mem_unsupportedLetters hc
  have hphrases : BeginsCommand (phrases.flatMap Phrase.written ++ c :: after) := by
    cases phrases with
    | nil => exact hbegins
    | cons p rest =>
      rintro x ⟨⟩
      exact startsCommand_letter p.command
  rw [List.append_assoc] at hdata
  rw [tokenize_eq_readStretches hdata hlead hphrases, stretches_append _ _ hbegins,
    readStretches_append, readStretches_of_sentence h, Text.byteLength_append, stretches,
    readStretches, Stretch.tokens_of_mem_unsupportedLetters hc]
  rfl

/-- The fault is a command that is not handled exactly if such a letter stands behind blanks and
phrases that are read, whatever follows it. -/
theorem ofPathData_eq_unsupported_iff {data : String} {c : Char} {offset : Nat} :
    (Outline.ofPathData data : Except PathError (Outline α)) = .error ⟨c, offset, .unsupported⟩ ↔
      ∃ (lead : List Char) (phrases : List Phrase) (tokens : List (Token α)) (after : List Char),
        data.toList = lead ++ phrases.flatMap Phrase.written ++ c :: after ∧
        (∀ x ∈ lead, Text.isBlank x = true) ∧ Sentence (Text.byteLength lead) phrases tokens ∧
        c ∈ Command.unsupportedLetters ∧
        offset = Text.byteLength (lead ++ phrases.flatMap Phrase.written) := by
  constructor
  · intro h
    obtain ⟨before, d, text, after, hdata, hat⟩ := exists_isAt h
    obtain rfl : c = d := hat.command PathError.Cause.noConfusion
    obtain ⟨tokens, hread⟩ := hat.intact
    obtain ⟨lead, phrases, hbefore, hlead, hsentence⟩ := tokenize_eq_ok_iff_sentence.mp hread
    rw [String.toList_ofList] at hbefore
    subst hbefore
    refine ⟨lead, phrases, tokens, text ++ after, ?_, hlead, hsentence, hat.unsupported.mp rfl,
      hat.offset⟩
    rw [hdata, List.append_assoc, List.append_assoc, List.append_assoc, List.cons_append]
  · rintro ⟨lead, phrases, tokens, after, hdata, hlead, hsentence, hc, rfl⟩
    exact Outline.ofPathData_of_tokenize_error (tokenize_unsupported hlead hsentence hc hdata)

/-! ## Formulas -/

namespace Formula

/-- A formula fails with the fault of its path data, under every label and style. -/
theorem ofPathData_eq_error_iff {label data : String} {style : Style Float} {e : PathError} :
    ofPathData label data style = .error e ↔
      (Outline.ofPathData data : Except PathError (Outline Float)) = .error e := by
  have hmap : ofPathData label data style =
      (Outline.ofPathData data).map (ofOutline label · style) := by
    rw [ofPathData, Outline.ofPathData]
    cases parsePath (α := Float) data with
    | error e => rfl
    | ok tokens => rfl
  rw [hmap, map_eq_error]

/-- **Faults point at their causes.** The position of a fault is where a character of the data
begins; all commands before it are read, and without what follows the character the fault is the
same. It names the character, except that a line in the place of a closing or of a repeated move
overflows under its own letter. It is a command that is not handled exactly if the data are blanks
and commands that are read, up to one of the letters that are not handled. -/
theorem faults_of_ofPathData (label data : String) (style : Style Float) :
    (∀ e, ofPathData label data style = .error e →
      ∃ before c text after, data.toList = before ++ c :: text ++ after ∧
        e.IsAt Float before c text) ∧
    ∀ (c : Char) (offset : Nat), ofPathData label data style = .error ⟨c, offset, .unsupported⟩ ↔
      ∃ (lead : List Char) (phrases : List Phrase) (tokens : List (Token Float))
        (after : List Char),
        data.toList = lead ++ phrases.flatMap Phrase.written ++ c :: after ∧
        (∀ x ∈ lead, Text.isBlank x = true) ∧ Sentence (Text.byteLength lead) phrases tokens ∧
        c ∈ Command.unsupportedLetters ∧
        offset = Text.byteLength (lead ++ phrases.flatMap Phrase.written) :=
  ⟨fun _ h => exists_isAt (ofPathData_eq_error_iff.mp h), fun _ _ =>
    ofPathData_eq_error_iff.trans ofPathData_eq_unsupported_iff⟩

/-- Behind a blank of two bytes: a move with three pairs of numbers, whose second line leaves the
range, and a command that is not handled before a number that cannot be read. -/
theorem faults_of_ofPathData_afterBlank :
    (∃ before c text after, "\u00a0M0 0 1e308 0 1e308 0z".toList = before ++ c :: text ++ after ∧
      PathError.IsAt Float ⟨'l', 2, .coordinateOverflow⟩ before c text) ∧
    ∃ (lead : List Char) (phrases : List Phrase) (tokens : List (Token Float)) (after : List Char),
      "\u00a0M0 0A1-".toList = lead ++ phrases.flatMap Phrase.written ++ 'A' :: after ∧
      (∀ x ∈ lead, Text.isBlank x = true) ∧ Sentence (Text.byteLength lead) phrases tokens ∧
      'A' ∈ Command.unsupportedLetters ∧
      6 = Text.byteLength (lead ++ phrases.flatMap Phrase.written) := by
  refine ⟨(faults_of_ofPathData "" _ Style.default).1 _ ?_,
    ((faults_of_ofPathData "" _ Style.default).2 'A' 6).mp ?_⟩
  · decide +kernel
  · decide +kernel

end Formula

end PiecewiseGlyph
