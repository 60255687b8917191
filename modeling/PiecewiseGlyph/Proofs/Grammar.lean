import Mathlib.Data.List.Forall2
import PiecewiseGlyph.Path.Token
import PiecewiseGlyph.Result

/-!
# The grammar of path data

Path data is blanks and then phrases, each a command letter and a text without such letters. The
pieces of that text are the numbers of one or more uses of the command.

* `Phrase.Denotes` is what one phrase means, and `Sentence` what phrases one after the other mean;
* `Stretch.tokens_eq_ok_iff`: a stretch is read exactly if it is a phrase with a meaning;
* `readStretches_stretches_eq_ok_iff` goes on from one stretch to all of them;
* `tokenize_eq_ok_iff`: path data is read exactly if it is blanks and a sentence, and then as the
  tokens that the sentence means.
-/

namespace PiecewiseGlyph

variable {α : Type} [Scalar α]

/-! ## Phrases and sentences -/

/-- The command of the uses after the first. -/
def Command.repeated : Command → Command
  | move => line
  | command => command

/-- A command letter and the text that belongs to it. -/
structure Phrase where
  command : Command
  text : List Char

namespace Phrase

/-- The phrase as written. -/
def written (p : Phrase) : List Char := p.command.letter :: p.text

/-- What stands between blanks and commas. -/
def pieces (p : Phrase) : List (List Char) :=
  (p.text.splitOnP separatesArguments).filter (!·.isEmpty)

/-- One token for each use of the command. -/
def tokens (p : Phrase) (offset : Nat) : List (List α) → List (Token α)
  | [] => []
  | first :: more =>
    ⟨p.command, first, offset⟩ :: more.map fun args => ⟨p.command.repeated, args, offset⟩

/-- What a phrase at a position means: its text has no letters but those of exponents, and its
pieces are the numbers of one or more uses of the command, or of one use if the command takes
none. -/
structure Denotes (p : Phrase) (offset : Nat) (tokens : List (Token α)) : Prop where
  letters : ∀ c ∈ p.text, c.isAlpha = true → c = 'e' ∨ c = 'E'
  uses : ∃ uses : List (List α), p.pieces.map Scalar.read? = uses.flatten.map some ∧ uses ≠ [] ∧
    (∀ args ∈ uses, args.length = p.command.arity) ∧ (p.command.arity = 0 → uses.length = 1) ∧
    tokens = p.tokens offset uses

end Phrase

/-- What phrases mean, the first being at a position. -/
inductive Sentence : Nat → List Phrase → List (Token α) → Prop
  | nil (offset : Nat) : Sentence offset [] []
  | cons {offset : Nat} {p : Phrase} {rest : List Phrase} {tokens more : List (Token α)}
    (first : p.Denotes offset tokens)
    (others : Sentence (offset + Text.byteLength p.written) rest more) :
    Sentence offset (p :: rest) (tokens ++ more)

/-! ## Letters -/

theorem startsCommand_letter (command : Command) : startsCommand command.letter = true := by
  cases command <;> decide

/-- The letters that start no command are those of exponents. -/
theorem startsCommand_eq_false_iff (c : Char) :
    startsCommand c = false ↔ (c.isAlpha = true → c = 'e' ∨ c = 'E') := by
  rw [startsCommand, ← Bool.not_eq_true, Bool.and_eq_true, Bool.and_eq_true, bne_iff_ne, bne_iff_ne]
  tauto

/-- The letters are those of ASCII. -/
theorem toNat_of_isAlpha {c : Char} (h : c.isAlpha = true) :
    (65 ≤ c.toNat ∧ c.toNat ≤ 90) ∨ (97 ≤ c.toNat ∧ c.toNat ≤ 122) := by
  change (decide (65 ≤ c.val ∧ c.val ≤ 90) || (decide (97 ≤ c.val) && decide (c.val ≤ 122))) = true
    at h
  simpa [UInt32.le_iff_toNat_le] using h

/-- A blank is no letter. -/
theorem startsCommand_of_isBlank {c : Char} (h : Text.isBlank c = true) :
    startsCommand c = false := by
  rw [startsCommand_eq_false_iff]
  intro halpha
  have hletter := toNat_of_isAlpha halpha
  simp only [Text.isBlank, Bool.or_eq_true, Bool.and_eq_true, decide_eq_true_eq,
    beq_iff_eq] at h
  omega

/-! ## One phrase -/

/-- A list of steps succeeds if each does, and the results keep their order. -/
theorem mapM_eq_ok_iff {ε β γ : Type} {f : β → Except ε γ} {xs : List β} {ys : List γ} :
    xs.mapM f = .ok ys ↔ List.Forall₂ (fun x y => f x = .ok y) xs ys := by
  induction xs generalizing ys with
  | nil => cases ys <;> simp [pure, Except.pure]
  | cons x xs ih =>
    rw [List.mapM_cons, bind_eq_ok]
    constructor
    · rintro ⟨y, hy, h⟩
      obtain ⟨zs, hzs, h⟩ := bind_eq_ok.mp h
      cases h
      exact .cons hy (ih.mp hzs)
    · intro h
      cases h with
      | cons hy hrest => exact ⟨_, hy, bind_eq_ok.mpr ⟨_, ih.mpr hrest, rfl⟩⟩

/-- A list of steps fails with the first step that does. -/
theorem mapM_eq_error_iff {ε β γ : Type} {f : β → Except ε γ} {xs : List β} {e : ε} :
    xs.mapM f = .error e ↔
      ∃ before x after, xs = before ++ x :: after ∧ (∀ y ∈ before, ∃ z, f y = .ok z) ∧
        f x = .error e := by
  induction xs with
  | nil => simp [pure, Except.pure]
  | cons x xs ih =>
    rw [List.mapM_cons, bind_eq_error]
    constructor
    · rintro (hx | ⟨y, hy, h⟩)
      · exact ⟨[], x, xs, rfl, nofun, hx⟩
      rcases bind_eq_error.mp h with h | ⟨ys, -, h⟩
      · obtain ⟨before, x', after, rfl, hbefore, hx'⟩ := ih.mp h
        exact ⟨x :: before, x', after, rfl, List.forall_mem_cons.mpr ⟨⟨y, hy⟩, hbefore⟩, hx'⟩
      · cases h
    · rintro ⟨before, x', after, h, hbefore, hx'⟩
      cases before with
      | nil =>
        obtain ⟨rfl, -⟩ := List.cons.inj h
        exact .inl hx'
      | cons y before =>
        obtain ⟨rfl, rfl⟩ := List.cons.inj h
        obtain ⟨⟨z, hz⟩, hbefore⟩ := List.forall_mem_cons.mp hbefore
        exact .inr ⟨z, hz, bind_eq_error.mpr (.inl (ih.mpr ⟨before, x', after, rfl, hbefore, hx'⟩))⟩

namespace Stretch

theorem command_eq_ok_iff {s : Stretch} {command : Command} :
    s.command = .ok command ↔ command.letter = s.letter := by
  rw [Stretch.command]
  constructor
  · intro h
    split at h
    · rename_i hc
      cases h
      exact Command.letter_of_ofLetter? hc
    · cases h
  · intro h
    rw [← h, Command.ofLetter?_letter]

theorem argument_eq_ok_iff {s : Stretch} {piece : List Char} {x : α} :
    s.argument piece = .ok x ↔ Scalar.read? piece = some x := by
  rw [Stretch.argument]
  split
  · rename_i y hy
    rw [hy, Except.ok.injEq, Option.some.injEq]
  · rename_i hy
    rw [hy]
    constructor <;> intro h <;> cases h

/-- The arguments are the numbers that the pieces are read as. -/
theorem arguments_eq_ok_iff {s : Stretch} {args : List α} :
    s.arguments = .ok args ↔
      (Text.pieces separatesArguments s.text).map Scalar.read? = args.map some := by
  rw [Stretch.arguments, mapM_eq_ok_iff, ← List.forall₂_eq_eq_eq, List.forall₂_map_left_iff,
    List.forall₂_map_right_iff]
  simp only [argument_eq_ok_iff]

omit [Scalar α] in
/-- The uses of a command that takes arguments are the runs of its arity. -/
theorem uses_eq_tokens {p : Phrase} (harity : p.command.arity ≠ 0) (offset : Nat)
    (args : List α) :
    uses p.command offset args = p.tokens offset (Text.groups p.command.arity args) := by
  obtain ⟨command, text⟩ := p
  rw [uses, if_neg harity]
  cases Text.groups command.arity args with
  | nil => rfl
  | cons first more => cases command <;> rfl

omit [Scalar α] in
/-- The arguments fit if they can be divided into uses, and only one division is possible. -/
theorem fits_and_uses_iff {p : Phrase} {offset : Nat} {args : List α} {tokens : List (Token α)} :
    fits p.command args.length = true ∧ tokens = uses p.command offset args ↔
      ∃ uses : List (List α), args = uses.flatten ∧ uses ≠ [] ∧
        (∀ args ∈ uses, args.length = p.command.arity) ∧ (p.command.arity = 0 → uses.length = 1) ∧
        tokens = p.tokens offset uses := by
  by_cases harity : p.command.arity = 0
  · rw [fits, if_pos harity, beq_iff_eq, List.length_eq_zero_iff, Stretch.uses, if_pos harity]
    constructor
    · rintro ⟨rfl, rfl⟩
      exact ⟨[[]], rfl, List.cons_ne_nil _ _, by simp [harity], fun _ => rfl, rfl⟩
    · rintro ⟨uses, rfl, -, hlength, hone, rfl⟩
      obtain ⟨use, rfl⟩ := List.length_eq_one_iff.mp (hone harity)
      have huse := hlength use List.mem_cons_self
      rw [harity, List.length_eq_zero_iff] at huse
      subst huse
      exact ⟨rfl, rfl⟩
  · rw [fits, if_neg harity, Bool.and_eq_true, bne_iff_ne, beq_iff_eq, uses_eq_tokens harity]
    constructor
    · rintro ⟨⟨hne, hmod⟩, rfl⟩
      refine ⟨Text.groups p.command.arity args, (Text.flatten_groups _ _).symm, fun hnil => hne ?_,
        fun g hg => Text.length_of_mem_groups hmod hg, fun h => absurd h harity, rfl⟩
      rw [← Text.flatten_groups p.command.arity args, hnil]
      rfl
    · rintro ⟨uses, rfl, hne, hlength, -, rfl⟩
      have hflat : uses.flatten.length = uses.length * p.command.arity := by
        rw [List.length_flatten, List.map_congr_left hlength, List.map_const',
          List.sum_replicate_nat]
      rw [Text.groups_flatten (Nat.pos_of_ne_zero harity) hlength, hflat]
      exact ⟨⟨Nat.mul_ne_zero (mt List.length_eq_zero_iff.mp hne) harity, Nat.mul_mod_left ..⟩, rfl⟩

/-- A stretch is read if it is a phrase that means something, and as what the phrase means. -/
theorem tokens_eq_ok_iff {s : Stretch} {tokens : List (Token α)}
    (htext : ∀ c ∈ s.text, startsCommand c = false) :
    s.tokens = .ok tokens ↔
      ∃ command, command.letter = s.letter ∧
        (⟨command, s.text⟩ : Phrase).Denotes s.offset tokens := by
  rw [Stretch.tokens, bind_eq_ok]
  constructor
  · rintro ⟨command, hcommand, h⟩
    obtain ⟨args, hargs, h⟩ := bind_eq_ok.mp h
    split at h
    · rename_i hfits
      cases h
      obtain ⟨uses, rfl, hne, hlength, hone, htokens⟩ :=
        (fits_and_uses_iff (p := ⟨command, s.text⟩)).mp ⟨hfits, rfl⟩
      rw [arguments_eq_ok_iff, Text.pieces_eq_filter_splitOnP] at hargs
      exact ⟨command, command_eq_ok_iff.mp hcommand,
        fun c hc => (startsCommand_eq_false_iff c).mp (htext c hc),
        uses, hargs, hne, hlength, hone, htokens⟩
    · cases h
  · rintro ⟨command, hcommand, -, uses, hpieces, hne, hlength, hone, htokens⟩
    have hargs : s.arguments = .ok uses.flatten := by
      rw [arguments_eq_ok_iff, Text.pieces_eq_filter_splitOnP]
      exact hpieces
    obtain ⟨hfits, rfl⟩ := (fits_and_uses_iff (p := ⟨command, s.text⟩)).mpr
      ⟨uses, rfl, hne, hlength, hone, htokens⟩
    refine ⟨command, command_eq_ok_iff.mpr hcommand, bind_eq_ok.mpr ⟨_, hargs, ?_⟩⟩
    rw [if_pos hfits]
    rfl

end Stretch

/-! ## All phrases -/

/-- A text is over where a phrase begins. -/
theorem upTo_startsCommand {text : List Char} (htext : ∀ c ∈ text, startsCommand c = false)
    (phrases : List Phrase) :
    Text.upTo startsCommand (text ++ phrases.flatMap Phrase.written) =
      (text, phrases.flatMap Phrase.written) := by
  cases phrases with
  | nil => rw [List.flatMap_nil, List.append_nil, Text.upTo_eq_self htext]
  | cons p rest => exact Text.upTo_append_cons htext (startsCommand_letter p.command) _

/-- A phrase with a meaning and what follows it are cut where the phrase ends. -/
theorem stretches_cons {p : Phrase} {offset : Nat} {tokens : List (Token α)}
    (h : p.Denotes offset tokens) (rest : List Phrase) :
    stretches offset ((p :: rest).flatMap Phrase.written) =
      ⟨p.command.letter, offset, p.text⟩ ::
        stretches (offset + Text.byteLength p.written) (rest.flatMap Phrase.written) := by
  rw [List.flatMap_cons, Phrase.written, List.cons_append, stretches,
    upTo_startsCommand fun c hc => (startsCommand_eq_false_iff c).mpr (h.letters c hc)]

/-- What phrases mean is read from them. -/
theorem readStretches_of_sentence {offset : Nat} {phrases : List Phrase} {tokens : List (Token α)}
    (h : Sentence offset phrases tokens) :
    readStretches (stretches offset (phrases.flatMap Phrase.written)) = .ok tokens := by
  induction h with
  | nil offset => rw [List.flatMap_nil, stretches, readStretches]
  | cons first others ih =>
    rw [stretches_cons first, readStretches, bind_eq_ok]
    refine ⟨_, ?_, bind_eq_ok.mpr ⟨_, ih, rfl⟩⟩
    exact (Stretch.tokens_eq_ok_iff fun c hc =>
      (startsCommand_eq_false_iff c).mpr (first.letters c hc)).mpr ⟨_, rfl, first⟩

/-- What is read are phrases, and it is what they mean. -/
theorem exists_sentence_of_readStretches {offset : Nat} {cs : List Char} {tokens : List (Token α)}
    (h : readStretches (stretches offset cs) = .ok tokens) :
    ∃ phrases : List Phrase, cs = phrases.flatMap Phrase.written ∧
      Sentence offset phrases tokens := by
  fun_induction stretches offset cs generalizing tokens with
  | case1 offset =>
    cases h
    exact ⟨[], rfl, .nil offset⟩
  | case2 offset c cs span =>
    rename_i ih
    rw [readStretches, bind_eq_ok] at h
    obtain ⟨first, hfirst, h⟩ := h
    obtain ⟨more, hmore, h⟩ := bind_eq_ok.mp h
    cases h
    obtain ⟨command, hletter, hdenotes⟩ :=
      (Stretch.tokens_eq_ok_iff fun x hx => Text.of_mem_upTo_fst hx).mp hfirst
    obtain rfl : command.letter = c := hletter
    obtain ⟨rest, hrest, hsentence⟩ := ih hmore
    refine ⟨⟨command, span.1⟩ :: rest, ?_, .cons hdenotes hsentence⟩
    rw [List.flatMap_cons, ← hrest, Phrase.written, List.cons_append]
    exact congrArg _ (Text.upTo_fst_append_snd startsCommand cs).symm

/-- The phrases of a text and their meaning are those of its stretches. -/
theorem readStretches_stretches_eq_ok_iff {offset : Nat} {cs : List Char}
    {tokens : List (Token α)} :
    readStretches (stretches offset cs) = .ok tokens ↔
      ∃ phrases : List Phrase, cs = phrases.flatMap Phrase.written ∧
        Sentence offset phrases tokens := by
  constructor
  · exact exists_sentence_of_readStretches
  · rintro ⟨phrases, rfl, h⟩
    exact readStretches_of_sentence h

/-! ## The whole text -/

/-- Text is astray unless it is blank. -/
theorem strayText?_eq_none_iff {lead : List Char} :
    strayText? lead = none ↔ ∀ c ∈ lead, Text.isBlank c = true := by
  have happend := Text.upTo_fst_append_snd (! Text.isBlank ·) lead
  rw [strayText?]
  constructor
  · intro h
    split at h
    · rename_i blanks hcut
      rw [hcut, List.append_nil] at happend
      intro c hc
      have hfirst : c ∈ (Text.upTo (! Text.isBlank ·) lead).1 := by rwa [hcut, happend]
      simpa using Text.of_mem_upTo_fst hfirst
    · cases h
  · intro h
    rw [Text.upTo_eq_self fun c hc => by simp [h c hc]]

/-- A token of a meaning has the arguments that its command takes. -/
theorem Phrase.Denotes.length_args {p : Phrase} {offset : Nat} {tokens : List (Token α)}
    (h : p.Denotes offset tokens) {token : Token α} (htoken : token ∈ tokens) :
    token.args.length = token.command.arity ∧
      ∀ x ∈ token.args, Scalar.isFinite x = true := by
  obtain ⟨uses, hread, -, hlength, -, rfl⟩ := h.uses
  have hfinite : ∀ args ∈ uses, ∀ x ∈ args, Scalar.isFinite x = true := by
    intro args hargs x hx
    have hsome : some x ∈ uses.flatten.map some :=
      List.mem_map_of_mem (List.mem_flatten.mpr ⟨args, hargs, hx⟩)
    rw [← hread] at hsome
    obtain ⟨piece, -, hpiece⟩ := List.mem_map.mp hsome
    exact Scalar.isFinite_of_read? hpiece
  cases uses with
  | nil => cases htoken
  | cons first more =>
    rcases List.mem_cons.mp htoken with rfl | htoken
    · exact ⟨hlength _ List.mem_cons_self, hfinite _ List.mem_cons_self⟩
    · obtain ⟨args, hargs, rfl⟩ := List.mem_map.mp htoken
      have hargs := List.mem_cons_of_mem first hargs
      refine ⟨?_, hfinite _ hargs⟩
      rw [hlength _ hargs]
      cases p.command <;> rfl

theorem Sentence.length_args {offset : Nat} {phrases : List Phrase} {tokens : List (Token α)}
    (h : Sentence offset phrases tokens) {token : Token α} (htoken : token ∈ tokens) :
    token.args.length = token.command.arity ∧
      ∀ x ∈ token.args, Scalar.isFinite x = true := by
  induction h with
  | nil => cases htoken
  | cons first others ih =>
    rcases List.mem_append.mp htoken with htoken | htoken
    · exact first.length_args htoken
    · exact ih htoken

/-- Path data is read exactly if it is blanks and phrases with a meaning. -/
theorem tokenize_eq_ok_iff_sentence {data : String} {tokens : List (Token α)} :
    tokenize data = .ok tokens ↔
      ∃ (lead : List Char) (phrases : List Phrase),
        data.toList = lead ++ phrases.flatMap Phrase.written ∧
        (∀ c ∈ lead, Text.isBlank c = true) ∧
        Sentence (Text.byteLength lead) phrases tokens := by
  constructor
  · intro h
    have happend := Text.upTo_fst_append_snd startsCommand data.toList
    simp only [tokenize] at h
    split at h
    · cases h
    · rename_i hstray
      obtain ⟨phrases, hrest, hsentence⟩ := readStretches_stretches_eq_ok_iff.mp h
      refine ⟨_, phrases, ?_, strayText?_eq_none_iff.mp hstray, hsentence⟩
      rw [← hrest, happend]
  · rintro ⟨lead, phrases, hdata, hlead, hsentence⟩
    rw [tokenize, hdata, upTo_startsCommand fun c hc => startsCommand_of_isBlank (hlead c hc)]
    simp only [strayText?_eq_none_iff.mpr hlead]
    exact readStretches_stretches_eq_ok_iff.mpr ⟨phrases, rfl, hsentence⟩

/-- **Path data is read exactly if it is blanks and phrases with a meaning, and as what the phrases
mean. Every token then has as many arguments as its command takes, all of them in range.** -/
theorem tokenize_eq_ok_iff (data : String) (tokens : List (Token α)) :
    (tokenize data = .ok tokens ↔
      ∃ (lead : List Char) (phrases : List Phrase),
        data.toList = lead ++ phrases.flatMap Phrase.written ∧
        (∀ c ∈ lead, Text.isBlank c = true) ∧
        Sentence (Text.byteLength lead) phrases tokens) ∧
    (tokenize data = .ok tokens → ∀ token ∈ tokens,
      token.args.length = token.command.arity ∧
        ∀ x ∈ token.args, Scalar.isFinite x = true) := by
  refine ⟨tokenize_eq_ok_iff_sentence, fun h token htoken => ?_⟩
  obtain ⟨lead, phrases, -, -, hsentence⟩ := tokenize_eq_ok_iff_sentence.mp h
  exact hsentence.length_args htoken

/-- A move with two pairs of arguments is a move and a line, both at the letter of the move, which
stands after a blank of two bytes. -/
theorem tokenize_eq_ok_iff_repeatedMove :
    (tokenize "\u00a0M1 2,,3 -.5e1 z" : Except PathError (List (Token Rat))) =
        .ok [⟨.move, [1, 2], 2⟩, ⟨.line, [3, -5], 2⟩, ⟨.close, [], 16⟩] ∧
      ∀ token ∈ ([⟨.move, [1, 2], 2⟩, ⟨.line, [3, -5], 2⟩, ⟨.close, [], 16⟩] : List (Token Rat)),
        token.args.length = token.command.arity ∧
          ∀ x ∈ token.args, Scalar.isFinite x = true := by
  have h : (tokenize "\u00a0M1 2,,3 -.5e1 z" : Except PathError (List (Token Rat))) =
      .ok [⟨.move, [1, 2], 2⟩, ⟨.line, [3, -5], 2⟩, ⟨.close, [], 16⟩] := by decide +kernel
  exact ⟨h, (tokenize_eq_ok_iff _ _).2 h⟩

end PiecewiseGlyph
