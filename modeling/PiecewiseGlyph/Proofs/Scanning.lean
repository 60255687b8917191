import Mathlib.Order.Bounds.Basic
import PiecewiseGlyph.Proofs.Joining
import PiecewiseGlyph.Proofs.Positions

/-!
# Scanning path data

Path data can be read by positions alone: from one command letter to the next, each time cutting out
what stands between them. Such a scan only goes forward, every cut is between two characters, and no
text is passed over.

* `HoldsCommand` says that a command letter is at a position, and `nextCommand?_cases` which of
  these positions is found;
* `stretchAt?` cuts out one command (`stretchAt?_eq`), `visit?` goes on from there to the first
  fault (`visit?_eq`), and `scan?` begins with the text before all commands. They give nothing if a
  cut is out of range or goes through a character;
* `Scan.Covers` says what part of a text a scan has seen, and in which order;
* `scan_covers`: every text can be scanned, and what is read is what `tokenize` reads.
-/

namespace PiecewiseGlyph

variable {α : Type}

/-! ## Positions of command letters -/

/-- A command letter is at a position: an ASCII letter that cannot belong to an exponent. -/
def HoldsCommand (data : String) (n : Nat) : Prop :=
  ∃ b ∈ Text.byteAt? data n,
    (Char.ofUInt8 b).isAlpha = true ∧ Char.ofUInt8 b ≠ 'e' ∧ Char.ofUInt8 b ≠ 'E'

theorem startsCommand_iff (c : Char) :
    startsCommand c = true ↔ c.isAlpha = true ∧ c ≠ 'e' ∧ c ≠ 'E' := by
  rw [startsCommand, Bool.and_eq_true, Bool.and_eq_true, bne_iff_ne, bne_iff_ne, and_assoc]

theorem toNat_lt_of_startsCommand {c : Char} (h : startsCommand c = true) : c.toNat < 128 := by
  have hletter := toNat_of_isAlpha ((startsCommand_iff c).mp h).1
  omega

theorem utf8Size_of_startsCommand {c : Char} (h : startsCommand c = true) : c.utf8Size = 1 :=
  Text.utf8Size_of_lt (toNat_lt_of_startsCommand h)

/-- The byte of a command letter is a character of its own. -/
theorem holdsCommand_iff {data : String} {n : Nat} :
    HoldsCommand data n ↔ ∃ lead c rest, data.toList = lead ++ c :: rest ∧
      Text.byteLength lead = n ∧ startsCommand c = true := by
  constructor
  · rintro ⟨b, hb, hletter⟩
    have hstarts := (startsCommand_iff _).mpr hletter
    have hascii := toNat_lt_of_startsCommand hstarts
    rw [Text.toNat_ofUInt8] at hascii
    obtain ⟨lead, rest, h, hlead⟩ := (Text.byteAt?_eq_some_iff hascii).mp hb
    exact ⟨lead, _, rest, h, hlead, hstarts⟩
  · rintro ⟨lead, c, rest, h, rfl, hstarts⟩
    have hascii := toNat_lt_of_startsCommand hstarts
    refine ⟨_, Text.byteAt?_of_lt h hascii, ?_⟩
    rw [Text.ofUInt8_ofNat hascii]
    exact (startsCommand_iff c).mp hstarts

section Cut

/-! A text is cut twice: at a position, and where the first command after it begins. -/

variable {data : String} {lead text after : List Char}

theorem nextCommand?_eq (h : data.toList = lead ++ (text ++ after))
    (htext : ∀ c ∈ text, startsCommand c = false) (hafter : BeginsCommand after) :
    nextCommand? data (Text.byteLength lead) =
      after.head?.map fun _ => Text.byteLength (lead ++ text) := by
  have hdrop : Text.dropBytes? (Text.byteLength lead) data.toList = some (text ++ after) :=
    Text.dropBytes?_eq_some_iff.mpr ⟨lead, h, rfl⟩
  simp only [nextCommand?, hdrop, Text.upTo_append htext hafter]
  cases after with
  | nil => rfl
  | cons c rest => simp

/-- There is no command letter between the two cuts, nor after the second if the text is over. -/
theorem le_of_holdsCommand (h : data.toList = lead ++ (text ++ after))
    (htext : ∀ c ∈ text, startsCommand c = false) {n : Nat} (hn : Text.byteLength lead ≤ n)
    (hholds : HoldsCommand data n) : Text.byteLength (lead ++ text) ≤ n ∧ after ≠ [] := by
  obtain ⟨before, c, rest, h', rfl, hc⟩ := holdsCommand_iff.mp hholds
  obtain ⟨between, rfl, hrest⟩ := Text.exists_of_byteLength_le (h.symm.trans h') hn
  have hnot : c ∉ text := fun hmem => by
    have := htext c hmem
    rw [hc] at this
    cases this
  rcases List.append_eq_append_iff.mp hrest with ⟨more, rfl, rfl⟩ | ⟨more, rfl, hmore⟩
  · refine ⟨?_, by simp⟩
    simp only [Text.byteLength_append]
    omega
  · cases more with
    | nil =>
      rw [List.append_nil]
      exact ⟨le_rfl, by rw [← List.nil_append after, ← hmore]; exact List.cons_ne_nil c rest⟩
    | cons d more =>
      obtain ⟨rfl, -⟩ := List.cons.inj hmore
      exact absurd (by simp) hnot

/-- The text between the two cuts can be cut out. -/
theorem slice?_nextCommand? (h : data.toList = lead ++ (text ++ after))
    (htext : ∀ c ∈ text, startsCommand c = false) (hafter : BeginsCommand after) :
    Text.slice? data (Text.byteLength lead)
      ((nextCommand? data (Text.byteLength lead)).getD data.utf8ByteSize) = some text := by
  apply Text.slice?_eq_some_iff.mpr
  refine ⟨lead, after, by rw [h, List.append_assoc], rfl, ?_⟩
  rw [nextCommand?_eq h htext hafter, ← Text.byteLength_toList, h]
  cases after with
  | nil => simp
  | cons c rest => rfl

end Cut

/-- What is found is the first command letter from a position on. Nothing is found if there is none,
or if no character begins at the position and the text does not end there. -/
theorem nextCommand?_cases (data : String) (start : Nat) :
    (¬ (⟨start⟩ : String.Pos.Raw).IsValid data ∧ nextCommand? data start = none) ∨
      (⟨start⟩ : String.Pos.Raw).IsValid data ∧
        ((nextCommand? data start = none ∧ ∀ n, start ≤ n → ¬ HoldsCommand data n) ∨
          ∃ n, nextCommand? data start = some n ∧
            IsLeast {n | start ≤ n ∧ HoldsCommand data n} n) := by
  by_cases hvalid : (⟨start⟩ : String.Pos.Raw).IsValid data
  · refine .inr ⟨hvalid, ?_⟩
    obtain ⟨lead, rest, h, rfl⟩ := Text.isValid_iff.mp hvalid
    obtain ⟨text, after, rfl, htext, hafter⟩ := exists_append_beginsCommand rest
    rw [nextCommand?_eq h htext hafter]
    cases after with
    | nil =>
      exact .inl ⟨rfl, fun n hn hholds => (le_of_holdsCommand h htext hn hholds).2 rfl⟩
    | cons c after =>
      have hholds : HoldsCommand data (Text.byteLength (lead ++ text)) :=
        holdsCommand_iff.mpr ⟨lead ++ text, c, after, by rw [h, List.append_assoc], rfl,
          hafter c rfl⟩
      have hle : Text.byteLength lead ≤ Text.byteLength (lead ++ text) := by
        rw [Text.byteLength_append]
        omega
      exact .inr ⟨_, rfl, ⟨hle, hholds⟩, fun n hn => (le_of_holdsCommand h htext hn.1 hn.2).1⟩
  · refine .inl ⟨hvalid, ?_⟩
    have hdrop : Text.dropBytes? start data.toList = none := by
      rw [Option.eq_none_iff_forall_ne_some]
      intro rest hrest
      obtain ⟨lead, h, hlead⟩ := Text.dropBytes?_eq_some_iff.mp hrest
      exact hvalid (Text.isValid_iff.mpr ⟨lead, rest, h, hlead⟩)
    simp only [nextCommand?, hdrop]

theorem nextCommand?_eq_some_iff {data : String} {start n : Nat} :
    nextCommand? data start = some n ↔
      (⟨start⟩ : String.Pos.Raw).IsValid data ∧
        IsLeast {n | start ≤ n ∧ HoldsCommand data n} n := by
  rcases nextCommand?_cases data start with ⟨hvalid, h⟩ | ⟨hvalid, ⟨h, hnone⟩ | ⟨m, h, hleast⟩⟩
  · rw [h]
    exact ⟨nofun, fun hn => absurd hn.1 hvalid⟩
  · rw [h]
    exact ⟨nofun, fun hn => absurd hn.2.1.2 (hnone n hn.2.1.1)⟩
  · rw [h]
    constructor
    · intro hn
      obtain rfl := Option.some.inj hn
      exact ⟨hvalid, hleast⟩
    · exact fun hn => congrArg some (hleast.unique hn.2)

theorem nextCommand?_eq_none_iff {data : String} {start : Nat} :
    nextCommand? data start = none ↔
      ¬ (⟨start⟩ : String.Pos.Raw).IsValid data ∨ ∀ n, start ≤ n → ¬ HoldsCommand data n := by
  rcases nextCommand?_cases data start with ⟨hvalid, h⟩ | ⟨hvalid, ⟨h, hnone⟩ | ⟨m, h, hleast⟩⟩
  · exact iff_of_true h (.inl hvalid)
  · exact iff_of_true h (.inr hnone)
  · apply iff_of_false
    · rw [h]
      exact Option.some_ne_none m
    · rintro (hnot | hnone)
      · exact hnot hvalid
      · exact hnone m hleast.1.1 hleast.1.2

/-! ## The scan -/

/-- The command whose letter is at a position, with what stands up to the next one. -/
def stretchAt? (data : String) (offset : Nat) : Option Stretch :=
  let stop := (nextCommand? data (offset + 1)).getD data.utf8ByteSize
  match Text.byteAt? data offset, Text.slice? data (offset + 1) stop with
  | some b, some text => some ⟨Char.ofUInt8 b, offset, text⟩
  | _, _ => none

/-- How much of a text a scan has before it; nothing if no command is left. -/
def bytesAhead (data : String) : Option Nat → Nat
  | none => 0
  | some offset => data.utf8ByteSize - offset + 1

/-- The next command is further on, and in the text. -/
theorem bytesAhead_nextCommand?_lt (data : String) (offset : Nat) :
    bytesAhead data (nextCommand? data (offset + 1)) < bytesAhead data (some offset) := by
  cases h : nextCommand? data (offset + 1) with
  | none => exact Nat.succ_pos _
  | some n =>
    obtain ⟨-, ⟨hle, hholds⟩, -⟩ := nextCommand?_eq_some_iff.mp h
    obtain ⟨lead, c, rest, hdata, rfl, -⟩ := holdsCommand_iff.mp hholds
    have hsize : data.utf8ByteSize = Text.byteLength (lead ++ c :: rest) := by
      rw [← hdata, Text.byteLength_toList]
    have := c.utf8Size_pos
    rw [Text.byteLength_append, Text.byteLength_cons] at hsize
    simp only [bytesAhead]
    omega

variable [Scalar α]

/-- Read the command at a position and those that follow, up to the first fault: the commands that
the scan came to, and what was read. -/
def visit? (data : String) : Option Nat → Option (List Stretch × Except PathError (List (Token α)))
  | none => some ([], .ok [])
  | some offset =>
    match stretchAt? data offset with
    | none => none
    | some s =>
      match (s.tokens : Except PathError (List (Token α))) with
      | .error e => some ([s], .error e)
      | .ok tokens =>
        (visit? data (nextCommand? data (offset + 1))).map fun (visited, more) =>
          (s :: visited, more.map (tokens ++ ·))
  termination_by next => bytesAhead data next
  decreasing_by exact bytesAhead_nextCommand?_lt data offset

/-- What comes of a scan. -/
structure Scan (α : Type) where
  /-- The text before the first command. -/
  lead : List Char
  /-- The commands that the scan came to. -/
  visited : List Stretch
  result : Except PathError (List (Token α))

/-- Scan a text. -/
def scan? (data : String) : Option (Scan α) :=
  let first := nextCommand? data 0
  match Text.slice? data 0 (first.getD data.utf8ByteSize) with
  | none => none
  | some lead =>
    match strayText? lead with
    | some e => some ⟨lead, [], .error e⟩
    | none => (visit? data first).map fun (visited, result) => ⟨lead, visited, result⟩

/-- At a command letter the command is cut out, and the scan comes to what follows. -/
theorem stretchAt?_eq {data : String} {lead text after : List Char} {c : Char}
    (h : data.toList = lead ++ (c :: text ++ after)) (hc : startsCommand c = true)
    (htext : ∀ x ∈ text, startsCommand x = false) (hafter : BeginsCommand after) :
    stretchAt? data (Text.byteLength lead) = some ⟨c, Text.byteLength lead, text⟩ ∧
      nextCommand? data (Text.byteLength lead + 1) =
        after.head?.map fun _ => Text.byteLength (lead ++ c :: text) := by
  have hascii := toNat_lt_of_startsCommand hc
  have hbyte := Text.byteAt?_of_lt h hascii
  have hdata : data.toList = lead ++ [c] ++ (text ++ after) := by
    rw [h]
    simp
  have hletter : Text.byteLength lead + 1 = Text.byteLength (lead ++ [c]) := by
    rw [Text.byteLength_append, Text.byteLength_cons, utf8Size_of_startsCommand hc,
      Text.byteLength_nil]
  constructor
  · have hslice := slice?_nextCommand? hdata htext hafter
    rw [← hletter] at hslice
    simp only [stretchAt?, hbyte, hslice, Text.ofUInt8_ofNat hascii]
  · rw [hletter, nextCommand?_eq hdata htext hafter]
    simp

/-! ## What a scan comes to -/

/-- A command of a text stands at its position, and ends where the next one begins. -/
theorem exists_of_mem_stretches {offset : Nat} {cs : List Char}
    (hcs : BeginsCommand cs) {s : Stretch}
    (hs : s ∈ stretches offset cs) :
    ∃ before after, cs = before ++ (s.letter :: s.text ++ after) ∧
      s.offset = offset + Text.byteLength before ∧ startsCommand s.letter = true ∧
      (∀ c ∈ s.text, startsCommand c = false) ∧ BeginsCommand after := by
  fun_induction stretches offset cs with
  | case1 => cases hs
  | case2 offset c cs span ih =>
    have hcut : c :: cs = c :: span.1 ++ span.2 := cons_eq_upTo_append c cs
    have hbegins : BeginsCommand span.2 := beginsCommand_upTo cs
    rcases List.mem_cons.mp hs with rfl | hs
    · exact ⟨[], span.2, hcut, rfl, hcs c rfl, fun x hx => Text.of_mem_upTo_fst hx, hbegins⟩
    · obtain ⟨before, after, hsplit, hoffset, hrest⟩ := ih hbegins hs
      refine ⟨c :: span.1 ++ before, after, ?_, ?_, hrest⟩
      · rw [hcut, hsplit, List.append_assoc]
      · rw [hoffset, Text.byteLength_append, Nat.add_assoc]

/-- Each command is further on than the one before. -/
theorem pairwise_stretches {offset : Nat} {cs : List Char} (hcs : BeginsCommand cs) :
    (stretches offset cs).Pairwise (·.offset < ·.offset) := by
  fun_induction stretches offset cs with
  | case1 => exact .nil
  | case2 offset c cs span ih =>
    have hbegins : BeginsCommand span.2 := beginsCommand_upTo cs
    refine List.pairwise_cons.mpr ⟨fun s hs => ?_, ih hbegins⟩
    obtain ⟨before, -, -, hoffset, -⟩ := exists_of_mem_stretches hbegins hs
    have := c.utf8Size_pos
    rw [Text.byteLength_cons] at hoffset
    change offset < s.offset
    omega

/-- The commands up to the first faulty one. -/
def upToFault (α : Type) [Scalar α] : List Stretch → List Stretch
  | [] => []
  | s :: rest =>
    if (s.tokens : Except PathError (List (Token α))).isOk then s :: upToFault α rest else [s]

theorem isPrefix_upToFault (ss : List Stretch) : upToFault α ss <+: ss := by
  induction ss with
  | nil => exact List.prefix_rfl
  | cons s rest ih =>
    rw [upToFault]
    split
    · exact List.cons_prefix_cons.mpr ⟨rfl, ih⟩
    · exact List.cons_prefix_cons.mpr ⟨rfl, List.nil_prefix⟩

/-- Without a fault, these are all commands. -/
theorem upToFault_eq_self {ss : List Stretch} {tokens : List (Token α)}
    (h : readStretches ss = .ok tokens) : upToFault α ss = ss := by
  induction ss generalizing tokens with
  | nil => rfl
  | cons s rest ih =>
    obtain ⟨first, hfirst, h⟩ := bind_eq_ok.mp h
    obtain ⟨more, hmore, -⟩ := bind_eq_ok.mp h
    rw [upToFault, hfirst, ih hmore]
    rfl

/-- A fault is that of the last of them. -/
theorem exists_upToFault_eq {ss : List Stretch} {e : PathError}
    (h : readStretches (α := α) ss = .error e) :
    ∃ before s, upToFault α ss = before ++ [s] ∧
      (∀ r ∈ before, ∃ tokens : List (Token α), r.tokens = .ok tokens) ∧
      (s.tokens : Except PathError (List (Token α))) = .error e := by
  induction ss with
  | nil => cases h
  | cons s rest ih =>
    rw [upToFault]
    rcases bind_eq_error.mp h with hfirst | ⟨tokens, hfirst, h⟩
    · rw [hfirst]
      exact ⟨[], s, rfl, nofun, hfirst⟩
    · rcases bind_eq_error.mp h with hrest | ⟨more, -, h⟩
      · obtain ⟨before, last, hvisited, hintact, hfault⟩ := ih hrest
        rw [hfirst, hvisited]
        exact ⟨s :: before, last, rfl, List.forall_mem_cons.mpr ⟨⟨tokens, hfirst⟩, hintact⟩, hfault⟩
      · cases h

/-- From a command on, the scan comes to the commands up to the first fault, and reads what they
give. -/
theorem visit?_eq {data : String} {lead cs : List Char} (h : data.toList = lead ++ cs)
    (hcs : BeginsCommand cs) :
    visit? (α := α) data (cs.head?.map fun _ => Text.byteLength lead) =
      some (upToFault α (stretches (Text.byteLength lead) cs),
        readStretches (stretches (Text.byteLength lead) cs)) := by
  generalize hoffset : Text.byteLength lead = offset
  fun_induction stretches offset cs generalizing lead with
  | case1 =>
    rw [List.head?_nil, Option.map_none, visit?]
    rfl
  | case2 offset c cs span =>
    rename_i ih
    have hspan : ∀ x ∈ span.1, startsCommand x = false := fun x hx => Text.of_mem_upTo_fst hx
    have hcut : c :: cs = c :: span.1 ++ span.2 := cons_eq_upTo_append c cs
    have hbegins : BeginsCommand span.2 := beginsCommand_upTo cs
    have hlead : Text.byteLength (lead ++ c :: span.1) =
        offset + Text.byteLength (c :: span.1) := by
      rw [Text.byteLength_append, hoffset]
    rw [hcut] at h
    obtain ⟨hturn, hnext⟩ := stretchAt?_eq h (hcs c rfl) hspan hbegins
    rw [hoffset] at hturn hnext
    rw [hlead] at hnext
    have hrest := ih (by rw [h, List.append_assoc]) hbegins hlead
    rw [List.head?_cons, Option.map_some, visit?, upToFault, readStretches]
    simp only [hturn, hnext, hrest]
    cases (⟨c, offset, span.1⟩ : Stretch).tokens (α := α) with
    | error e => rfl
    | ok tokens =>
      cases readStretches (α := α) (stretches (offset + Text.byteLength (c :: span.1)) span.2) <;>
        rfl

/-- What a scan has seen of a text: the text before all commands, and then one command after the
other, each further on than the one before, and cut out between characters. What it has not seen
begins with a command letter. It has seen the whole text if nothing is wrong. If the text before all
commands is wrong it has not come to any command, and otherwise the first faulty command is the
last. -/
structure Scan.Covers (scan : Scan α) (data : String) : Prop where
  forward : scan.visited.Pairwise (·.offset < ·.offset)
  cuts : ∀ s ∈ scan.visited, HoldsCommand data s.offset ∧
    (⟨s.offset⟩ : String.Pos.Raw).IsValid data ∧ (⟨s.offset + 1⟩ : String.Pos.Raw).IsValid data ∧
    stretchAt? data s.offset = some s
  seen : ∃ rest, data.toList =
      scan.lead ++ scan.visited.flatMap (fun s => s.letter :: s.text) ++ rest ∧ BeginsCommand rest ∧
    ∀ tokens, scan.result = .ok tokens → rest = []
  stray : ∀ e, strayText? scan.lead = some e → scan.visited = [] ∧ scan.result = .error e
  faulty : ∀ e, strayText? scan.lead = none → scan.result = .error e →
    ∃ before s, scan.visited = before ++ [s] ∧
      (∀ r ∈ before, ∃ tokens : List (Token α), r.tokens = .ok tokens) ∧
      (s.tokens : Except PathError (List (Token α))) = .error e

/-- Each command of a text is cut out at its position. -/
theorem cuts_of_mem_stretches {data : String} {lead cs : List Char} (h : data.toList = lead ++ cs)
    (hcs : BeginsCommand cs) {s : Stretch} (hs : s ∈ stretches (Text.byteLength lead) cs) :
    HoldsCommand data s.offset ∧ (⟨s.offset⟩ : String.Pos.Raw).IsValid data ∧
      (⟨s.offset + 1⟩ : String.Pos.Raw).IsValid data ∧ stretchAt? data s.offset = some s := by
  obtain ⟨before, after, rfl, hoffset, hletter, htext, hafter⟩ := exists_of_mem_stretches hcs hs
  rw [← Text.byteLength_append] at hoffset
  have hdata : data.toList = lead ++ before ++ (s.letter :: s.text ++ after) := by
    rw [h, List.append_assoc]
  obtain ⟨hturn, -⟩ := stretchAt?_eq hdata hletter htext hafter
  rw [← hoffset] at hturn
  refine ⟨holdsCommand_iff.mpr ⟨_, _, _, hdata, hoffset.symm, hletter⟩,
    Text.isValid_iff.mpr ⟨_, _, hdata, hoffset.symm⟩,
    Text.isValid_iff.mpr ⟨lead ++ before ++ [s.letter], s.text ++ after, ?_, ?_⟩, hturn⟩
  · rw [hdata]
    simp
  · rw [Text.byteLength_append, ← hoffset, Text.byteLength_cons, utf8Size_of_startsCommand hletter,
      Text.byteLength_nil]

/-- Behind the commands up to the first fault there is nothing, or another command. -/
theorem exists_flatMap_upToFault (offset : Nat) {cs : List Char} (hcs : BeginsCommand cs) :
    ∃ rest, cs = (upToFault α (stretches offset cs)).flatMap (fun s => s.letter :: s.text) ++ rest ∧
      BeginsCommand rest ∧
      ∀ tokens : List (Token α), readStretches (stretches offset cs) = .ok tokens → rest = [] := by
  obtain ⟨others, hothers⟩ := isPrefix_upToFault (α := α) (stretches offset cs)
  refine ⟨others.flatMap fun s => s.letter :: s.text, ?_, ?_, fun tokens htokens => ?_⟩
  · rw [← List.flatMap_append, hothers, flatten_stretches]
  · cases others with
    | nil => rintro c ⟨⟩
    | cons s others =>
      rintro c ⟨⟩
      have hs : s ∈ stretches offset cs := by
        rw [← hothers]
        simp
      obtain ⟨-, -, -, -, hletter, -⟩ := exists_of_mem_stretches hcs hs
      exact hletter
  · rw [upToFault_eq_self htokens] at hothers
    have hnone : others = [] := by simpa using hothers
    rw [hnone, List.flatMap_nil]

/-- Where the text before all commands is wrong, the scan ends. -/
theorem covers_of_strayText? {data : String} {lead rest : List Char} {e : PathError}
    (h : data.toList = lead ++ rest) (hrest : BeginsCommand rest)
    (hstray : strayText? lead = some e) :
    Scan.Covers (⟨lead, [], .error e⟩ : Scan α) data where
  forward := .nil
  cuts := nofun
  seen := ⟨rest, by rw [h]; simp, hrest, nofun⟩
  stray e' he' := by
    obtain rfl := Option.some.inj (hstray.symm.trans he')
    exact ⟨rfl, rfl⟩
  faulty e' hnone := by
    cases hstray.symm.trans hnone

/-- Otherwise it goes on to the first faulty command. -/
theorem covers_upToFault {data : String} {lead rest : List Char} (h : data.toList = lead ++ rest)
    (hrest : BeginsCommand rest) (hstray : strayText? lead = none) :
    Scan.Covers (⟨lead, upToFault α (stretches (Text.byteLength lead) rest),
      readStretches (stretches (Text.byteLength lead) rest)⟩ : Scan α) data where
  forward := (pairwise_stretches hrest).sublist (isPrefix_upToFault _).sublist
  cuts s hs := cuts_of_mem_stretches h hrest ((isPrefix_upToFault _).subset hs)
  seen := by
    obtain ⟨others, hothers, hbegins, hwhole⟩ :=
      exists_flatMap_upToFault (α := α) (Text.byteLength lead) hrest
    refine ⟨others, ?_, hbegins, hwhole⟩
    rw [h, List.append_assoc]
    exact congrArg (lead ++ ·) hothers
  stray e he := by
    cases hstray.symm.trans he
  faulty e _ he := exists_upToFault_eq he

/-- Every text can be scanned, and the scan reads what is read of the text. -/
theorem exists_scan (data : String) :
    ∃ scan : Scan α, scan? data = some scan ∧ scan.result = tokenize data ∧ scan.Covers data := by
  obtain ⟨lead, rest, hdata, hlead, hrest⟩ := exists_append_beginsCommand data.toList
  -- the lead is read like the text of a command, with nothing before it
  have hstart : data.toList = [] ++ (lead ++ rest) := hdata
  have hfirst : nextCommand? data 0 = rest.head?.map fun _ => Text.byteLength lead :=
    nextCommand?_eq hstart hlead hrest
  have hslice : Text.slice? data 0 ((nextCommand? data 0).getD data.utf8ByteSize) = some lead :=
    slice?_nextCommand? hstart hlead hrest
  cases hstray : strayText? lead with
  | some e =>
    refine ⟨⟨lead, [], .error e⟩, ?_, ?_, covers_of_strayText? hdata hrest hstray⟩
    · simp only [scan?, hslice, hstray]
    · exact (tokenize_of_strayText? hdata hlead hrest hstray).symm
  | none =>
    have hvisit := visit?_eq (α := α) hdata hrest
    rw [← hfirst] at hvisit
    refine ⟨⟨lead, _, _⟩, ?_, ?_, covers_upToFault hdata hrest hstray⟩
    · simp only [scan?, hslice, hstray, hvisit, Option.map_some]
    · exact (tokenize_eq_readStretches hdata (strayText?_eq_none_iff.mp hstray) hrest).symm

/-- **A scan finds every command, passes over nothing, and ends.** The command found from a position
on is the first one there, and none is found if there is none or if the position is not between
characters. Every text can be scanned in this way, with every cut in range and between characters;
the scan reads what is read of the text; and it has seen the text, or the part of it up to the end
of the first faulty command. -/
theorem scan_covers (data : String) :
    (∀ start n, nextCommand? data start = some n ↔
      (⟨start⟩ : String.Pos.Raw).IsValid data ∧ IsLeast {n | start ≤ n ∧ HoldsCommand data n} n) ∧
    (∀ start, nextCommand? data start = none ↔
      ¬ (⟨start⟩ : String.Pos.Raw).IsValid data ∨ ∀ n, start ≤ n → ¬ HoldsCommand data n) ∧
    ∃ scan : Scan α, scan? data = some scan ∧ scan.result = tokenize data ∧ scan.Covers data :=
  ⟨fun _ _ => nextCommand?_eq_some_iff, fun _ => nextCommand?_eq_none_iff, exists_scan data⟩

/-- Behind a blank of two bytes and with one of three bytes before the second command, whose number
cannot be read: the third command is not come to. -/
theorem scan_covers_brokenNumber :
    ∃ scan : Scan Rat, scan? "\u00a0M1e1 2\u2003l1- 3z" = some scan ∧
      scan.visited.map Stretch.offset = [2, 11] ∧ scan.Covers "\u00a0M1e1 2\u2003l1- 3z" := by
  obtain ⟨-, -, scan, hscan, -, hcovers⟩ := scan_covers (α := Rat) "\u00a0M1e1 2\u2003l1- 3z"
  have hvisited : ((scan? "\u00a0M1e1 2\u2003l1- 3z" : Option (Scan Rat)).map fun scan =>
      scan.visited.map Stretch.offset) = some [2, 11] := by
    decide +kernel
  rw [hscan] at hvisited
  exact ⟨scan, hscan, Option.some.inj hvisited, hcovers⟩

end PiecewiseGlyph
