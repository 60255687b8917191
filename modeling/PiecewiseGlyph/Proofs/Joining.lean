import PiecewiseGlyph.Proofs.Grammar

/-!
# Joining path data

Path data that begins with a command letter can be put after any other: each command is read as if
it stood alone, only further on in the text.

* `shiftReading` is what is read of a text that stands further on;
* `stretches_append` and `stretches_shift`: the stretches of two texts are those of the first and,
  further on, those of the second; `readStretches_append` and `readStretches_shift` read them so;
* `tokenize_append` says this of whole texts, and `exists_isFaultOf` finds the leftmost faulty
  command;
* `tokenize_append_cases`: what is read of two texts, with faults and their positions.
-/

namespace PiecewiseGlyph

variable {α : Type}

/-! ## Further on in a text -/

/-- The token, so many bytes further on. -/
def Token.shift (n : Nat) (token : Token α) : Token α := { token with offset := token.offset + n }

/-- The fault, so many bytes further on. -/
def PathError.shift (n : Nat) (e : PathError) : PathError := { e with offset := e.offset + n }

/-- The stretch, so many bytes further on. -/
def Stretch.shift (n : Nat) (s : Stretch) : Stretch := { s with offset := s.offset + n }

/-- What is read, or what is wrong, so many bytes further on. -/
def shiftReading (n : Nat) :
    Except PathError (List (Token α)) → Except PathError (List (Token α))
  | .ok tokens => .ok (tokens.map (Token.shift n))
  | .error e => .error (e.shift n)

/-- What is wrong further on is wrong in the text itself. -/
theorem exists_of_shiftReading_eq_error {n : Nat} {x : Except PathError (List (Token α))}
    {e : PathError} (h : shiftReading n x = .error e) :
    ∃ own, x = .error own ∧ e = own.shift n := by
  cases x with
  | ok tokens => cases h
  | error own => exact ⟨own, rfl, (Except.error.inj h).symm⟩

/-- Reading further on goes step by step. -/
theorem shiftReading_bind_append (n : Nat) (x y : Except PathError (List (Token α))) :
    shiftReading n (do let first ← x; let second ← y; return first ++ second) = do
      let first ← shiftReading n x
      let second ← shiftReading n y
      return first ++ second := by
  cases x with
  | error e => rfl
  | ok first =>
    cases y with
    | error e => rfl
    | ok second => exact congrArg Except.ok List.map_append

namespace Stretch

theorem command_shift (n : Nat) (s : Stretch) :
    (s.shift n).command = s.command.mapError (PathError.shift n) := by
  simp only [command, shift]
  split <;> rfl

theorem uses_shift (command : Command) (offset n : Nat) (args : List α) :
    uses command (offset + n) args = (uses command offset args).map (Token.shift n) := by
  unfold uses
  split
  · rfl
  · cases Text.groups command.arity args with
    | nil => rfl
    | cons first more => simp [Token.shift]

variable [Scalar α]

theorem arguments_shift (n : Nat) (s : Stretch) :
    (s.shift n).arguments (α := α) = s.arguments.mapError (PathError.shift n) := by
  have hargument : ∀ piece,
      (s.shift n).argument (α := α) piece = (s.argument piece).mapError (PathError.shift n) := by
    intro piece
    simp only [argument, shift]
    split <;> rfl
  rw [arguments, arguments]
  change (Text.pieces separatesArguments s.text).mapM _ = _
  induction Text.pieces separatesArguments s.text with
  | nil => rfl
  | cons piece rest ih =>
    rw [List.mapM_cons, List.mapM_cons, ih, hargument]
    cases s.argument (α := α) piece with
    | error e => rfl
    | ok x => cases rest.mapM (s.argument (α := α)) <;> rfl

/-- A stretch is read in the same way wherever it stands. -/
theorem tokens_shift (n : Nat) (s : Stretch) :
    (s.shift n).tokens (α := α) = shiftReading n s.tokens := by
  rw [tokens, tokens, command_shift, arguments_shift]
  cases s.command with
  | error e => rfl
  | ok command =>
    cases s.arguments (α := α) with
    | error e => rfl
    | ok args =>
      change (if fits command args.length = true then pure (uses command (s.offset + n) args)
        else throw _) = shiftReading n (if fits command args.length = true then _ else _)
      split
      · exact congrArg Except.ok (uses_shift command s.offset n args)
      · rfl

end Stretch

theorem stretches_shift (offset n : Nat) (cs : List Char) :
    stretches (offset + n) cs = (stretches offset cs).map (Stretch.shift n) := by
  fun_induction stretches offset cs with
  | case1 => rw [stretches, List.map_nil]
  | case2 offset c cs span ih =>
    rw [stretches, List.map_cons, ← ih]
    have hoffset : offset + n + Text.byteLength (c :: span.1) =
        offset + Text.byteLength (c :: span.1) + n := by omega
    rw [hoffset]
    rfl

variable [Scalar α]

theorem readStretches_shift (n : Nat) (ss : List Stretch) :
    readStretches (α := α) (ss.map (Stretch.shift n)) = shiftReading n (readStretches ss) := by
  induction ss with
  | nil => rfl
  | cons s rest ih =>
    rw [List.map_cons, readStretches, readStretches, Stretch.tokens_shift, ih,
      shiftReading_bind_append]

/-! ## Two texts -/

/-- A text that is empty or begins with a command letter: what stands before it ends there. -/
def BeginsCommand (cs : List Char) : Prop := ∀ c ∈ cs.head?, startsCommand c = true

/-- The cut at the first command letter is made in the first of two texts, if the second begins with
such a letter. -/
theorem upTo_startsCommand_append (cs : List Char) {ds : List Char} (hds : BeginsCommand ds) :
    Text.upTo startsCommand (cs ++ ds) =
      ((Text.upTo startsCommand cs).1, (Text.upTo startsCommand cs).2 ++ ds) := by
  have hfirst : ∀ c ∈ (Text.upTo startsCommand cs).1, startsCommand c = false := fun c hc =>
    Text.of_mem_upTo_fst hc
  have hsplit := Text.upTo_fst_append_snd startsCommand cs
  conv => lhs; rw [← hsplit, List.append_assoc]
  refine Text.upTo_append hfirst fun c hc => ?_
  cases hrest : (Text.upTo startsCommand cs).2 with
  | nil => exact hds c (by rwa [hrest, List.nil_append] at hc)
  | cons x xs =>
    rw [hrest] at hc
    obtain rfl : x = c := by simpa using hc
    exact Text.of_upTo_snd_cons hrest

/-- The cut leaves a text that begins with a command letter. -/
theorem beginsCommand_upTo (cs : List Char) : BeginsCommand (Text.upTo startsCommand cs).2 := by
  intro c hc
  obtain ⟨rest, hrest⟩ := List.head?_eq_some_iff.mp hc
  exact Text.of_upTo_snd_cons hrest

/-- Every text is a text without command letters, and then nothing or a command. -/
theorem exists_append_beginsCommand (cs : List Char) :
    ∃ text after, cs = text ++ after ∧ (∀ c ∈ text, startsCommand c = false) ∧
      BeginsCommand after :=
  ⟨(Text.upTo startsCommand cs).1, (Text.upTo startsCommand cs).2,
    (Text.upTo_fst_append_snd startsCommand cs).symm, fun _ hc => Text.of_mem_upTo_fst hc,
    beginsCommand_upTo cs⟩

/-- A command letter, what belongs to it, and what is left. -/
theorem cons_eq_upTo_append (c : Char) (cs : List Char) :
    c :: cs = c :: (Text.upTo startsCommand cs).1 ++ (Text.upTo startsCommand cs).2 :=
  congrArg (c :: ·) (Text.upTo_fst_append_snd startsCommand cs).symm

theorem stretches_append (offset : Nat) (cs : List Char) {ds : List Char} (hds : BeginsCommand ds) :
    stretches offset (cs ++ ds) =
      stretches offset cs ++ stretches (offset + Text.byteLength cs) ds := by
  fun_induction stretches offset cs with
  | case1 => rfl
  | case2 offset c cs span ih =>
    have hlength : Text.byteLength (c :: span.1) + Text.byteLength span.2 =
        Text.byteLength (c :: cs) := by
      rw [← Text.byteLength_append, List.cons_append, Text.upTo_fst_append_snd]
    rw [List.cons_append, stretches, upTo_startsCommand_append cs hds, List.cons_append]
    dsimp only
    rw [ih, Nat.add_assoc, hlength]

theorem readStretches_append (ss rest : List Stretch) :
    readStretches (α := α) (ss ++ rest) = do
      let first ← readStretches ss
      let second ← readStretches rest
      return first ++ second := by
  induction ss with
  | nil =>
    rw [List.nil_append]
    cases readStretches (α := α) rest <;> rfl
  | cons s ss ih =>
    rw [List.cons_append, readStretches, readStretches, ih]
    simp only [bind_assoc, pure_bind, List.append_assoc]

/-! ## Whole texts -/

theorem tokenize_eq_readStretches {data : String} {lead rest : List Char}
    (hdata : data.toList = lead ++ rest) (hlead : ∀ c ∈ lead, Text.isBlank c = true)
    (hrest : BeginsCommand rest) :
    (tokenize data : Except PathError (List (Token α))) =
      readStretches (stretches (Text.byteLength lead) rest) := by
  have hcut : Text.upTo startsCommand data.toList = (lead, rest) := by
    rw [hdata]
    exact Text.upTo_append (fun c hc => startsCommand_of_isBlank (hlead c hc)) hrest
  rw [tokenize, hcut]
  simp only [strayText?_eq_none_iff.mpr hlead]

theorem tokenize_of_strayText? {data : String} {lead rest : List Char} {e : PathError}
    (hdata : data.toList = lead ++ rest) (hlead : ∀ c ∈ lead, startsCommand c = false)
    (hrest : BeginsCommand rest) (hstray : strayText? lead = some e) :
    (tokenize data : Except PathError (List (Token α))) = .error e := by
  have hcut : Text.upTo startsCommand data.toList = (lead, rest) := by
    rw [hdata]
    exact Text.upTo_append hlead hrest
  rw [tokenize, hcut]
  simp only [hstray]

theorem tokenize_of_beginsCommand {data : String} (h : BeginsCommand data.toList) :
    (tokenize data : Except PathError (List (Token α))) =
      readStretches (stretches 0 data.toList) :=
  tokenize_eq_readStretches (List.nil_append _).symm nofun h

theorem tokenize_empty : (tokenize "" : Except PathError (List (Token α))) = .ok [] := by
  have hempty : BeginsCommand "".toList := by
    rw [String.toList_empty]
    nofun
  rw [tokenize_of_beginsCommand hempty, String.toList_empty, stretches, readStretches]

/-- **Two texts are read one after the other**, if the second begins with a command letter. -/
theorem tokenize_append (d₁ d₂ : String) (h : BeginsCommand d₂.toList) :
    (tokenize (d₁ ++ d₂) : Except PathError (List (Token α))) = do
      let first ← tokenize d₁
      let second ← shiftReading d₁.utf8ByteSize (tokenize d₂)
      return first ++ second := by
  rw [tokenize_of_beginsCommand h, ← readStretches_shift, ← stretches_shift, Nat.zero_add,
    ← Text.byteLength_toList, tokenize, tokenize, String.toList_append,
    upTo_startsCommand_append _ h]
  dsimp only
  cases strayText? (Text.upTo startsCommand d₁.toList).1 with
  | some e => rfl
  | none =>
    have hlength : Text.byteLength (Text.upTo startsCommand d₁.toList).1 +
        Text.byteLength (Text.upTo startsCommand d₁.toList).2 = Text.byteLength d₁.toList := by
      rw [← Text.byteLength_append, Text.upTo_fst_append_snd]
    dsimp only
    rw [stretches_append _ _ h, readStretches_append, hlength]

/-! ## The leftmost fault -/

/-- A command letter and a text without such letters are one stretch. -/
theorem stretches_singleton (offset : Nat) (c : Char) {text : List Char}
    (htext : ∀ x ∈ text, startsCommand x = false) :
    stretches offset (c :: text) = [⟨c, offset, text⟩] := by
  rw [stretches, Text.upTo_eq_self htext]
  simp [stretches]

/-- Where stretches cannot be read, there is a first one that cannot. -/
theorem exists_faulty_stretch {offset : Nat} {cs : List Char} {e : PathError}
    (hcs : BeginsCommand cs) (h : readStretches (α := α) (stretches offset cs) = .error e) :
    ∃ before c text after, cs = before ++ c :: text ++ after ∧
      (∃ tokens, readStretches (α := α) (stretches offset before) = .ok tokens) ∧
      BeginsCommand before ∧ startsCommand c = true ∧ (∀ x ∈ text, startsCommand x = false) ∧
      Stretch.tokens (α := α) ⟨c, offset + Text.byteLength before, text⟩ = .error e := by
  fun_induction stretches offset cs with
  | case1 => cases h
  | case2 offset c cs span ih =>
    have hspan : ∀ x ∈ span.1, startsCommand x = false := fun x hx => Text.of_mem_upTo_fst hx
    have hcut : c :: cs = c :: span.1 ++ span.2 := cons_eq_upTo_append c cs
    rw [readStretches, bind_eq_error] at h
    rcases h with hfirst | ⟨tokens, hfirst, h⟩
    · exact ⟨[], c, span.1, span.2, hcut, ⟨[], by rw [stretches]; rfl⟩, by rintro x ⟨⟩,
        hcs c rfl, hspan, hfirst⟩
    rcases bind_eq_error.mp h with hrest | ⟨more, -, h⟩
    · obtain ⟨before, d, text, after, hsplit, ⟨others, hbefore⟩, hbegins, hd, htext, herror⟩ :=
        ih (beginsCommand_upTo cs) hrest
      have hoffset : offset + Text.byteLength (c :: span.1 ++ before) =
          offset + Text.byteLength (c :: span.1) + Text.byteLength before := by
        rw [Text.byteLength_append, Nat.add_assoc]
      refine ⟨c :: span.1 ++ before, d, text, after, ?_, ⟨tokens ++ others, ?_⟩, ?_, hd, htext, ?_⟩
      · rw [hcut, hsplit]
        simp
      · have hone : readStretches (α := α) [⟨c, offset, span.1⟩] = .ok tokens :=
          bind_eq_ok.mpr ⟨_, hfirst, bind_eq_ok.mpr ⟨_, rfl, congrArg _ (List.append_nil _)⟩⟩
        rw [stretches_append _ _ hbegins, stretches_singleton _ _ hspan, readStretches_append, hone,
          hbefore]
        rfl
      · exact fun x hx => hcs x hx
      · rw [hoffset]
        exact herror
    · cases h

/-- A fault is that of one command: all commands before it are read, the command has the fault also
by itself, and whatever commands follow do not matter. Text before all commands counts as one. -/
structure IsFaultOf (α : Type) [Scalar α] (e : PathError) (before faulty : String) : Prop where
  intact : ∃ tokens : List (Token α), tokenize before = .ok tokens
  begins : before = "" ∨ BeginsCommand faulty.toList
  one : ∀ c ∈ faulty.toList.tail, startsCommand c = false
  own : ∃ own, (tokenize faulty : Except PathError (List (Token α))) = .error own ∧
    e = own.shift before.utf8ByteSize
  lasting : ∀ after : String, BeginsCommand after.toList →
    (tokenize (before ++ faulty ++ after) : Except PathError (List (Token α))) = .error e

/-- A fault stays whatever follows. -/
theorem tokenize_append_of_error {d₁ d₂ : String} {e : PathError} (h : BeginsCommand d₂.toList)
    (he : (tokenize d₁ : Except PathError (List (Token α))) = .error e) :
    (tokenize (d₁ ++ d₂) : Except PathError (List (Token α))) = .error e := by
  rw [tokenize_append d₁ d₂ h, he]
  rfl

/-- A fault is found again behind a text without faults. -/
theorem tokenize_append_of_ok {d₁ d₂ : String} {e : PathError} {tokens : List (Token α)}
    (h : BeginsCommand d₂.toList) (hd₁ : tokenize d₁ = .ok tokens)
    (he : (tokenize d₂ : Except PathError (List (Token α))) = .error e) :
    (tokenize (d₁ ++ d₂) : Except PathError (List (Token α))) =
      .error (e.shift d₁.utf8ByteSize) := by
  rw [tokenize_append d₁ d₂ h, hd₁, he]
  rfl

/-- A fault of a stretch is that of its text, read as a text of its own. -/
theorem exists_tokenize_eq_error {c : Char} {text : List Char} {n : Nat} {e : PathError}
    (hc : startsCommand c = true) (htext : ∀ x ∈ text, startsCommand x = false)
    (h : Stretch.tokens (α := α) ⟨c, n, text⟩ = .error e) :
    ∃ own, (tokenize (String.ofList (c :: text)) : Except PathError (List (Token α))) =
      .error own ∧ e = own.shift n := by
  have hbegins : BeginsCommand (String.ofList (c :: text)).toList := by
    rw [String.toList_ofList]
    rintro x ⟨⟩
    exact hc
  have hshift : (⟨c, n, text⟩ : Stretch) = Stretch.shift n ⟨c, 0, text⟩ := by
    rw [Stretch.shift, Nat.zero_add]
  rw [hshift, Stretch.tokens_shift] at h
  obtain ⟨own, hown, he⟩ := exists_of_shiftReading_eq_error h
  refine ⟨own, ?_, he⟩
  rw [tokenize_of_beginsCommand hbegins, String.toList_ofList, stretches_singleton _ _ htext,
    readStretches, hown]
  rfl

/-- Text before all commands that is not blank is a fault of its own. -/
theorem isFaultOf_of_strayText? {lead : List Char} {e : PathError}
    (hlead : ∀ c ∈ lead, startsCommand c = false) (hstray : strayText? lead = some e) :
    IsFaultOf α e "" (String.ofList lead) := by
  have hown : (tokenize (String.ofList lead) : Except PathError (List (Token α))) = .error e :=
    tokenize_of_strayText? (by rw [String.toList_ofList, List.append_nil]) hlead (by rintro x ⟨⟩)
      hstray
  refine ⟨⟨[], tokenize_empty⟩, .inl rfl, ?_, ⟨e, hown, rfl⟩,
    fun after hafter => tokenize_append_of_error hafter hown⟩
  intro c hc
  rw [String.toList_ofList] at hc
  exact hlead c (List.mem_of_mem_tail hc)

/-- A command that cannot be read is a fault, if what is before it can be read. -/
theorem isFaultOf_of_tokens {before text : List Char} {c : Char} {tokens : List (Token α)}
    {e : PathError} (hbefore : tokenize (String.ofList before) = .ok tokens)
    (hc : startsCommand c = true) (htext : ∀ x ∈ text, startsCommand x = false)
    (hfault : Stretch.tokens (α := α) ⟨c, Text.byteLength before, text⟩ = .error e) :
    IsFaultOf α e (String.ofList before) (String.ofList (c :: text)) := by
  obtain ⟨own, hown, he⟩ := exists_tokenize_eq_error hc htext hfault
  have hfaulty : BeginsCommand (String.ofList (c :: text)).toList := by
    rw [String.toList_ofList]
    rintro x ⟨⟩
    exact hc
  have he : e = own.shift (String.ofList before).utf8ByteSize := by
    rw [he, ← Text.byteLength_toList, String.toList_ofList]
  refine ⟨⟨tokens, hbefore⟩, .inr hfaulty, ?_, ⟨own, hown, he⟩, fun after hafter => ?_⟩
  · rw [String.toList_ofList]
    exact htext
  · refine tokenize_append_of_error hafter ?_
    rw [he]
    exact tokenize_append_of_ok hfaulty hbefore hown

/-- A fault of path data is that of its leftmost faulty command. -/
theorem exists_isFaultOf {data : String} {e : PathError}
    (h : (tokenize data : Except PathError (List (Token α))) = .error e) :
    ∃ before faulty after, data = before ++ faulty ++ after ∧ IsFaultOf α e before faulty := by
  obtain ⟨lead, rest, hdata, hlead, hrest⟩ := exists_append_beginsCommand data.toList
  cases hstray : strayText? lead with
  | some stray =>
    obtain rfl : stray = e :=
      Except.error.inj ((tokenize_of_strayText? hdata hlead hrest hstray).symm.trans h)
    refine ⟨"", String.ofList lead, String.ofList rest, ?_, isFaultOf_of_strayText? hlead hstray⟩
    rw [String.empty_append, ← String.ofList_append, ← hdata, String.ofList_toList]
  | none =>
    have hblank := strayText?_eq_none_iff.mp hstray
    rw [tokenize_eq_readStretches hdata hblank hrest] at h
    obtain ⟨before, c, text, after, hsplit, ⟨tokens, hbefore⟩, hbegins, hc, htext, hfault⟩ :=
      exists_faulty_stretch hrest h
    rw [← Text.byteLength_append] at hfault
    have hintact : (tokenize (String.ofList (lead ++ before)) :
        Except PathError (List (Token α))) = .ok tokens := by
      rw [tokenize_eq_readStretches String.toList_ofList hblank hbegins]
      exact hbefore
    refine ⟨String.ofList (lead ++ before), String.ofList (c :: text), String.ofList after, ?_,
      isFaultOf_of_tokens hintact hc htext hfault⟩
    rw [← String.ofList_append, ← String.ofList_append, List.append_assoc, List.append_assoc,
      ← List.append_assoc before, ← hsplit, ← hdata, String.ofList_toList]

/-- **Path data is read command by command, faults included.** If the second of two texts begins
with a command letter, a fault of the first is the fault of both; if the first has none, the tokens
of the second follow those of the first, with their positions raised by its length in bytes, and so
is a fault of the second. Hence a fault is always that of the leftmost faulty command, and nothing
that follows can change or hide it. -/
theorem tokenize_append_cases :
    (∀ d₁ d₂ : String, (∃ c ∈ d₂.toList.head?, c.isAlpha = true ∧ c ≠ 'e' ∧ c ≠ 'E') →
      (∀ e, (tokenize d₁ : Except PathError (List (Token α))) = .error e →
        (tokenize (d₁ ++ d₂) : Except PathError (List (Token α))) = .error e) ∧
      ∀ first : List (Token α), tokenize d₁ = .ok first →
        (∀ second : List (Token α), tokenize d₂ = .ok second →
          tokenize (d₁ ++ d₂) = .ok (first ++ second.map fun token =>
            { token with offset := token.offset + d₁.utf8ByteSize })) ∧
        ∀ e, (tokenize d₂ : Except PathError (List (Token α))) = .error e →
          (tokenize (d₁ ++ d₂) : Except PathError (List (Token α))) =
            .error { e with offset := e.offset + d₁.utf8ByteSize }) ∧
    ∀ (data : String) (e : PathError),
      (tokenize data : Except PathError (List (Token α))) = .error e →
      ∃ before faulty after, data = before ++ faulty ++ after ∧ IsFaultOf α e before faulty := by
  refine ⟨fun d₁ d₂ hletter => ?_, fun data e => exists_isFaultOf⟩
  have hbegins : BeginsCommand d₂.toList := by
    obtain ⟨c, hc, halpha, he, hE⟩ := hletter
    intro d hd
    obtain rfl := Option.some.inj (hc.symm.trans hd)
    rw [← Bool.not_eq_false, startsCommand_eq_false_iff]
    exact fun h => (h halpha).elim he hE
  refine ⟨fun e he => tokenize_append_of_error hbegins he, fun first hfirst => ⟨?_, ?_⟩⟩
  · intro second hsecond
    rw [tokenize_append d₁ d₂ hbegins, hfirst, hsecond]
    rfl
  · intro e he
    exact tokenize_append_of_ok hbegins hfirst he

/-- Behind six bytes, of which the first two are one blank: a text without faults, a text with a
fault, and the same text when the first has a fault of its own. -/
theorem tokenize_append_cases_afterBlank :
    (tokenize ("\u00a0M0 0" ++ "l1 2z") : Except PathError (List (Token Rat))) =
        .ok ([⟨.move, [0, 0], 2⟩] ++ [⟨.line, [1, 2], 6⟩, ⟨.close, [], 10⟩]) ∧
      (tokenize ("\u00a0M0 0" ++ "h5l1-") : Except PathError (List (Token Rat))) =
        .error ⟨'l', 8, .invalidNumber "1-"⟩ ∧
      (tokenize ("\u00a0M0" ++ "h5l1-") : Except PathError (List (Token Rat))) =
        .error ⟨'M', 2, .argumentCount 2 1⟩ ∧
      ∃ before faulty after, "M0 0h5l1-X" = before ++ faulty ++ after ∧
        IsFaultOf Rat ⟨'l', 6, .invalidNumber "1-"⟩ before faulty := by
  obtain ⟨happend, hleftmost⟩ := tokenize_append_cases (α := Rat)
  obtain ⟨-, hok⟩ := happend "\u00a0M0 0" "l1 2z" ⟨'l', rfl, by decide⟩
  obtain ⟨-, hfault⟩ := happend "\u00a0M0 0" "h5l1-" ⟨'h', rfl, by decide⟩
  obtain ⟨hearlier, -⟩ := happend "\u00a0M0" "h5l1-" ⟨'h', rfl, by decide⟩
  have hmove : (tokenize "\u00a0M0 0" : Except PathError (List (Token Rat))) =
      .ok [⟨.move, [0, 0], 2⟩] := by decide +kernel
  refine ⟨?_, ?_, ?_, ?_⟩
  · exact (hok _ hmove).1 [⟨.line, [1, 2], 0⟩, ⟨.close, [], 4⟩] (by decide +kernel)
  · exact (hfault _ hmove).2 ⟨'l', 2, .invalidNumber "1-"⟩ (by decide +kernel)
  · exact hearlier _ (by decide +kernel)
  · exact hleftmost _ _ (by decide +kernel)

end PiecewiseGlyph
