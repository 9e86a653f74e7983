import TreeLang.Proofs.Complaining

/-!
# What a parser complains of on its way

A parser without macros goes on in its text, and on its way it complains.  One complaint is about a token
that stands where the parser does, or was just taken; then the token is behind it, or the parser stands
still and says no more of it, except that a separator is missing or a key is taken.  Behind a mistake what
follows is skipped, and the skipping stops at once only where the group ends or the next key begins.

* `Amid`, **`Raises`** — a parser in a text, and what becomes of it.
* `raises_peek`, `raises_complain`, `raises_recover`, … — its steps.
* `Minds` — making a node changes nothing but what is in mind.
* **`Free`**, `Proceeds` — from which turn on complaints may follow in front of an element.
* `raises_separator`, `raises_missingColon`, `raises_missingKey` — what is read between elements.
-/

namespace TreeLang

namespace Parser

variable {α β : Type} {text : List Char} {s t u : ParserState} {low middle high : Nat}
  {P Q : Nat → Prop} {skipBreaks : Bool} {mode : Mode} {options : CompileOptions}

/-! ## A parser in a text -/

/-- **A parser that has no macros**, at a place of a text. -/
structure Amid (text : List Char) (s : ParserState) : Prop where
  lone : Lone text.length s
  reached : (Place.start text).Reaches s.here

/-- **What becomes of such a parser**: it goes on in the text, and complains in some turns. -/
structure Raises (text : List Char) (turns : Nat → Prop) (s t : ParserState) : Prop where
  strides : Strides s t
  complains : Complains text turns s t

/-- It goes on, and complains of nothing. -/
abbrev Silences (text : List Char) : ParserState → ParserState → Prop :=
  Raises text fun _ => False

lemma Amid.raises (amid : Amid text s) (raises : Raises text P s t) : Amid text t :=
  ⟨amid.lone.strides raises.strides, amid.reached.trans raises.strides.leads.reaches⟩

lemma Amid.settled (amid : Amid text s) : s.Settled :=
  amid.lone.settled

namespace Raises

lemma refl (amid : Amid text s) : Silences text s s :=
  ⟨.refl amid.settled, .refl s⟩

lemma mono (raises : Raises text P s t) (within : ∀ turn, P turn → Q turn) : Raises text Q s t :=
  ⟨raises.strides, raises.complains.mono within⟩

lemma behind (first : Silences text s t) (second : Raises text P t u) : Raises text P s u :=
  ⟨first.strides.trans second.strides, first.complains.behind second.complains⟩

lemma before (first : Raises text P s t) (second : Silences text t u) : Raises text P s u :=
  ⟨first.strides.trans second.strides, first.complains.before second.complains⟩

lemma append (first : Raises text P s t) (second : Raises text Q t u)
    (apart : ∀ turn, P turn → ¬ Q turn) : Raises text (fun turn => P turn ∨ Q turn) s u :=
  ⟨first.strides.trans second.strides, first.complains.append second.complains apart⟩

lemma within (first : Raises text (Within low middle) s t)
    (second : Raises text (Within middle high) t u) (le : low ≤ middle) (le' : middle ≤ high) :
    Raises text (Within low high) s u :=
  ⟨first.strides.trans second.strides, first.complains.within second.complains le le'⟩

lemma front_le (raises : Raises text P s t) : front s ≤ front t :=
  raises.strides.front_le

/-- A change of what is in mind. -/
lemma change (settled : s.Settled) (tokens : t.tokens = s.tokens) (visible : t.visible = s.visible)
    (scope : t.scope = s.scope) (recovering : t.recovering = s.recovering)
    (reports : t.reports = s.reports) : Silences text s t :=
  ⟨.change settled tokens visible scope recovering reports,
    .of_same (congrArg _ reports) (congrArg _ tokens) (congrArg _ tokens)⟩

end Raises

/-- A quiet step that goes on. -/
lemma StaysQuiet.raises {step : Parser α} {property : α → ParserState → Prop}
    (quiet : StaysQuiet text step) (ends : Ends step s fun value t => Strides s t ∧ property value t) :
    Leaves step s fun value t => Silences text s t ∧ property value t :=
  ((Leaves.of_ends ends).and (quiet s)).mono fun _ _ h => ⟨⟨h.1.1, h.2⟩, h.1.2⟩

/-- **A parser that rests**: at the same place, with the same closers in mind. -/
structure Rests (s t : ParserState) : Prop where
  here : t.here = s.here
  awaited : t.awaited = s.awaited

lemma front_eq_of_here (stays : t.here = s.here) : front t = front s :=
  congrArg (fun place : Place => (place.begin true).offset) stays

lemma start_reads (s : ParserState) (mode : Mode) : (s.reads true mode).token.start = front s :=
  (covers_reads s true mode).start

namespace Rests

lemma trans (first : Rests s t) (second : Rests t u) : Rests s u :=
  ⟨second.here.trans first.here, second.awaited.trans first.awaited⟩

lemma front_eq (rests : Rests s t) : front t = front s :=
  front_eq_of_here rests.here

lemma stopping {closer : Option TokenKind} {kind : TokenKind} (rests : Rests s t)
    (stops : Stopping s closer kind) : Stopping t closer kind := by
  rwa [Stopping, rests.awaited]

end Rests

/-! ### Tokens -/

lemma raises_peek (amid : Amid text s) (skipBreaks : Bool) (mode : Mode) :
    Leaves (peek skipBreaks mode) s fun token t =>
      Silences text s t ∧ token = (s.reads skipBreaks mode).token ∧ Rests s t := by
  obtain ⟨_, t, looked, settled, same, moves, stays, -⟩ := ends_peek amid.settled skipBreaks mode
  exact (StaysQuiet.peek skipBreaks mode).raises ⟨_, t, looked, settled,
    .of_moves settled moves (.of_eq stays.symm), same, stays, moves.awaited⟩

lemma raises_skipToken (amid : Amid text s) (skipBreaks : Bool) (mode : Mode) :
    Leaves (skipToken skipBreaks mode) s fun _ t =>
      Silences text s t ∧ t.here = (s.reads skipBreaks mode).after :=
  (StaysQuiet.skipToken skipBreaks mode).raises (strides_skipToken amid.settled skipBreaks mode)

/-- A token that is taken lies behind. -/
lemma begin_lt_here (more : (s.reads skipBreaks mode).token.kind ≠ .endOfInput)
    (place : t.here = (s.reads skipBreaks mode).after) :
    (s.here.begin skipBreaks).offset < t.here.offset := by
  rw [place]
  exact begin_lt_after more

/-- A token that no line break is skipped in front of. -/
lemma begin_eq (other : (s.reads false mode).token.kind ≠ .lineBreak) :
    s.reads true mode = s.reads false mode ∧ (s.here.begin false).offset = front s := by
  have same : s.reads true mode = s.reads false mode := lex_true other
  refine ⟨same, ?_⟩
  rw [← (covers_reads s false mode).start, ← same]
  exact (covers_reads s true mode).start

/-- A line break in front of the next token. -/
lemma Amid.behindBreak (amid : Amid text s)
    (breaks : (s.reads false mode).token.kind = .lineBreak) : BehindBreak text (front s) := by
  obtain ⟨q, reaches, newline, same, -⟩ := lex_lineBreak breaks
  exact ⟨q, amid.reached.trans reaches, newline, congrArg Place.offset same⟩

/-- The head of a group, and the place behind it. -/
lemma raises_groupHead? (amid : Amid text s) (nameMode : Mode) :
    Leaves (groupHead? nameMode) s fun found t => Silences text s t ∧
      (found = none → t.here = s.here) ∧
      ∀ name opener, found = some (name, opener) →
        (name.map Token.start).getD opener.start = front s ∧ front s < t.here.offset := by
  obtain ⟨found, t, run, settled, moves, place, stays, -⟩ := ends_groupHead? amid.settled nameMode
  have strides := ((travels_uniform {}).groupHead? nameMode).strides amid.settled run settled moves
  have ends : Ends (groupHead? nameMode) s fun found t => Strides s t ∧
      (found = none → t.here = s.here) ∧ ∀ name opener, found = some (name, opener) →
        (name.map Token.start).getD opener.start = front s ∧ front s < t.here.offset := by
    refine ⟨found, t, run, settled, strides, stays, ?_⟩
    rintro name opener rfl
    have first := covers_reads s true nameMode
    rw [Lexis.headAt?, Option.map_some] at place
    split at place
    · rename_i opens
      obtain ⟨rfl, rfl, after⟩ : none = name ∧ _ = opener ∧ _ = t.here := by simpa using place
      exact ⟨first.start, begin_lt_here (fun ends => by simp [ends, TokenKind.isOpener] at opens)
        after.symm⟩
    split at place
    · rename_i reads
      dsimp only at place
      split at place
      · obtain ⟨rfl, rfl, after⟩ : some _ = name ∧ _ = opener ∧ _ = t.here := by simpa using place
        refine ⟨first.start, ?_⟩
        rw [← after]
        refine Nat.lt_of_lt_of_le (begin_lt_after fun ends => ?_) (reaches_lex ..).offset_le
        rw [show (s.lexis.read true nameMode s.here).token.kind = .endOfInput from ends] at reads
        cases reads
      · cases place
    · cases place
  exact (StaysQuiet.groupHead? nameMode).raises ends

/-- An operator that is found is taken. -/
lemma raises_operatorOf? (amid : Amid text s) (group : PriorityGroup) (skipBreaks : Bool) :
    Leaves (operatorOf? group skipBreaks) s fun found t => Silences text s t ∧
      (found = none → t.here = s.here) ∧ (found.isSome → front s < t.here.offset) := by
  obtain ⟨found, t, run, settled, moves, place, stays, -⟩ :=
    ends_operatorOf? amid.settled group skipBreaks
  have strides :=
    ((travels_uniform {}).operatorOf? group skipBreaks).strides amid.settled run settled moves
  refine (StaysQuiet.operatorOf? group skipBreaks).raises ⟨found, t, run, settled, strides, stays,
    fun some => ?_⟩
  obtain ⟨op, rfl⟩ := Option.isSome_iff_exists.mp some
  rw [Lexis.operatorAt?, Option.map_some] at place
  split at place
  · rename_i kind
    obtain ⟨_, -, same⟩ := Option.map_eq_some_iff.mp place
    have operator : (s.reads skipBreaks .operation).token.kind = .operator ∨
        (s.reads skipBreaks .operation).token.kind = .keyword := by simpa using kind
    have taken := begin_lt_here (t := t) (fun ends => by simp [ends] at operator)
      (Prod.mk.inj same).2.symm
    cases skipBreaks with
    | true => exact taken
    | false =>
      have other : (s.reads false .operation).token.kind ≠ .lineBreak :=
        fun breaks => by simp [breaks] at operator
      exact (begin_eq other).2 ▸ taken
  · cases place

/-! ### Reports -/

/-- A report of the parser, in its turn. -/
lemma raises_note (amid : Amid text s) {report : Report} (parsed : ¬ report.Lexical) :
    Leaves (note report) s fun _ t =>
      Raises text (fun turn => turn = report.turn) s t ∧ Rests s t ∧ t.reports ≠ #[] := by
  intro _ t run
  obtain ⟨_, _, noted, settled, moves, stays, told⟩ := ends_note amid.settled report
  obtain ⟨rfl, rfl⟩ := ok_unique noted run
  exact ⟨⟨.of_moves settled moves (.of_eq stays.symm),
    complains_note amid.lone.attends parsed _ _ run⟩,
    ⟨stays, moves.awaited⟩, told amid.lone.attends⟩

/-- A complaint about a token. -/
lemma raises_complain (amid : Amid text s) (offset : Nat) {cause : Cause} {rank : Nat}
    (ranks : cause.Ranks rank) :
    Leaves (complain offset cause) s fun _ t =>
      Raises text (fun turn => turn = 3 * offset + rank) s t ∧ Rests s t ∧ t.reports ≠ #[] := by
  rw [← ranks.turn]
  exact raises_note amid (ranks.not_lexical offset)

/-- Skipping to a separator takes a word first, unless it stops at once. -/
lemma leaves_skipToSeparator_past (fuel : Nat) (closer : Option TokenKind) (settled : s.Settled) :
    Leaves (skipToSeparator fuel closer) s fun _ t => (s.here.begin false).offset < t.here.offset ∨
      Stopping s closer (s.reads false .word).token.kind ∧ t.here = s.here := by
  cases fuel with
  | zero => exact fun _ _ run => nomatch run
  | succ fuel =>
    rw [skipToSeparator]
    refine .after (ends_peek settled false .word) fun token t settled looked => ?_
    obtain ⟨rfl, moves, stays, -⟩ := looked
    have same : t.reads false .word = s.reads false .word := by
      rw [ParserState.reads, moves.lexis, stays]
    split
    · rename_i ended
      exact .pure (.inr ⟨.inl ended, stays⟩)
    rename_i more
    refine .closesAwaited ?_
    split
    · rename_i stops
      refine .pure (.inr ⟨.inr ?_, stays⟩)
      rw [moves.awaited] at stops
      simpa using stops
    refine .after (ends_skipToken settled false .word) fun _ u settled skipped => ?_
    have taken : (s.here.begin false).offset < u.here.offset :=
      begin_lt_here more (same ▸ skipped.2.1)
    have further {step : Parser Unit} (travels : Travels step) :
        Leaves step u fun _ v => (s.here.begin false).offset < v.here.offset := by
      intro _ v run
      have leads := (travels u settled.coherent).2
      rw [run] at leads
      exact Nat.lt_of_lt_of_le taken leads.reaches.offset_le
    have travels := travels_uniform {}
    split
    · exact .pure (.inl taken)
    refine (further ?_).mono fun _ _ => .inl
    split
    · exact Travels.bind (travels.skipGroup _ _) fun _ => travels.skipToSeparator _ _
    · exact travels.skipToSeparator _ _

/-- **Recovering**: where the next word does not stop it, that is skipped, be it a line break; where it
does, nothing is. -/
lemma raises_recover (amid : Amid text s) (told : s.reports ≠ #[]) (closer : Option TokenKind) :
    Leaves (recover closer) s fun _ t => Silences text s t ∧
      ((s.here.begin false).offset < t.here.offset ∨
        Stopping s closer (s.reads false .word).token.kind ∧ Rests s t) := by
  have passes : Leaves (recover closer) s fun _ t =>
      (s.here.begin false).offset < t.here.offset ∨
        Stopping s closer (s.reads false .word).token.kind ∧ t.here = s.here := by
    intro _ t run
    rw [recover_eq] at run
    have began : ParserState.Settled { s with recovering := true } :=
      settled_of_same amid.settled rfl rfl
    split at run
    · rename_i skips
      cases run
      have passed := leaves_skipToSeparator_past _ closer began _ _ skips
      exact passed
    · cases run
  intro _ t run
  obtain ⟨_, _, known, settled, moves, -⟩ :=
    ends_recover closer amid.settled amid.lone.attends told
  obtain ⟨rfl, rfl⟩ := ok_unique known run
  have strides := ((travels_uniform {}).recover closer).strides amid.settled run settled moves
  exact ⟨⟨strides, StaysQuiet.recover closer s _ _ run⟩,
    (passes _ _ run).imp_right fun stops => ⟨stops.1, stops.2, moves.awaited⟩⟩

/-! ### Nodes -/

/-- A state that differs in what is in mind. -/
structure Minds (s t : ParserState) : Prop where
  tokens : t.tokens = s.tokens
  visible : t.visible = s.visible
  scope : t.scope = s.scope
  recovering : t.recovering = s.recovering
  reports : t.reports = s.reports

lemma Minds.raises (minds : Minds s t) (amid : Amid text s) : Silences text s t :=
  .change amid.settled minds.tokens minds.visible minds.scope minds.recovering minds.reports

lemma Minds.here (minds : Minds s t) : t.here = s.here :=
  congrArg TokenStream.anchor minds.tokens

namespace Minds

lemma refl (s : ParserState) : Minds s s := ⟨rfl, rfl, rfl, rfl, rfl⟩

lemma numbered (s : ParserState) : Minds s { s with lastId := s.lastId + 1 } :=
  ⟨rfl, rfl, rfl, rfl, rfl⟩

lemma trans (first : Minds s t) (second : Minds t u) : Minds s u :=
  ⟨second.tokens.trans first.tokens, second.visible.trans first.visible,
    second.scope.trans first.scope, second.recovering.trans first.recovering,
    second.reports.trans first.reports⟩

variable {length : Nat}

lemma lone (minds : Minds s t) (lone : Lone length s) : Lone length t :=
  lone.strides (.change lone.settled minds.tokens minds.visible minds.scope minds.recovering
    minds.reports)

end Minds

section Minds

variable {length : Nat} (lone : Lone length s)

include lone

lemma minds_expand (node : Node) (kind : MacroKind) :
    Leaves (expand node kind) s fun _ t => Minds s t :=
  (leaves_expand lone node kind).mono fun _ _ made => made.2 ▸ .refl s

lemma minds_primitive (token : Token) (expands : Bool) :
    Leaves (primitive token expands) s fun _ t => Minds s t := by
  have numbered := Minds.numbered s
  refine .changed ?_
  dsimp only
  split
  · exact .pure numbered
  refine (leaves_parameterIndex? (numbered.lone lone) token.content).bind ?_
  rintro _ _ ⟨rfl, rfl⟩
  dsimp only
  split
  · exact (leaves_invoke (numbered.lone lone) _ _).mono fun _ _ made => made.2 ▸ numbered
  · exact .pure numbered

lemma minds_operatorNode (op : OperatorDefinition) (operands : List Node) (span : Span) :
    Leaves (operatorNode op operands span) s fun _ t => Minds s t :=
  .changed ((minds_expand ((Minds.numbered s).lone lone) _ _).mono fun _ _ => (Minds.numbered s).trans)

lemma minds_binaryNode (op : OperatorDefinition) (left right : Node) :
    Leaves (binaryNode op left right) s fun _ t => Minds s t := by
  rw [binaryNode]
  split
  · have rescoped (change : TemplateScope → TemplateScope) :
        Minds s { s with scope := s.scope.map change, lastId := s.lastId + 1 } :=
      ⟨rfl, rfl, by simp [lone.scope], rfl, rfl⟩
    refine .get ?_
    rw [lone.scope]
    exact .modify (.changed ((minds_expand ((rescoped _).lone lone) _ _).mono fun _ _ =>
      (rescoped _).trans))
  · exact minds_operatorNode lone op _ _

lemma minds_completeGroup {start : Nat} {content : GroupContent} (name : Option Token)
    (expands : Bool) (reference : Option Nat) :
    Leaves (completeGroup options name start expands reference content) s fun _ t => Minds s t := by
  have marked (change : TemplateScope → TemplateScope) :
      Minds s { s with lastId := s.lastId + 1, scope := s.scope.map change } :=
    ⟨rfl, rfl, by simp [lone.scope], rfl, rfl⟩
  have offered {t : ParserState} (minds : Minds s t) (node : Node) (kind : MacroKind) :
      Leaves (if expands then expand node kind else Pure.pure node) t fun _ u => Minds s u := by
    split
    · exact (minds_expand (minds.lone lone) _ _).mono fun _ _ => minds.trans
    · exact .pure minds
  rw [completeGroup.eq_def]
  dsimp only
  split
  · exact .pure (.refl s)
  · refine .changed ?_
    split
    · exact .modify (offered (marked _) _ _)
    · exact offered (.numbered s) _ _

end Minds

/-! ## Between the elements of a group -/

/-- **From which turn on complaints may follow** in front of the next element of a group.  Where the next
token ends the group nothing will be said of it any more, and where it is a key no more than that it is
taken. -/
def Free (mode : Mode) (closer : TokenKind) (low : Nat) (s : ParserState) : Prop :=
  low ≤ 3 * front s ∨
    (Stopping s (some closer) (s.reads true mode).token.kind ∧ low ≤ 3 * front s + 1) ∨
    (mode = .key ∧ (s.reads true mode).token.kind.isText = true ∧ low ≤ 3 * front s + 2)

lemma not_isCloser_of_isText {kind : TokenKind} (text : kind.isText = true) : kind.isCloser = false := by
  cases kind <;> first | rfl | cases text

/-- What stops the skipping of words stands in the line. -/
lemma Stopping.ne_lineBreak {closer kind : TokenKind} (closes : closer.isCloser = true)
    (stops : Stopping s (some closer) kind) : kind ≠ .lineBreak := by
  rintro rfl
  rcases stops with ends | closed | ⟨closed, -⟩
  · cases ends
  · cases closed
    cases closes
  · cases closed

/-- **What stops the skipping of words ends the group**, unless it is the beginning of a key. -/
lemma Stopping.of_word {closer : TokenKind} (closes : closer.isCloser = true)
    (stops : Stopping s (some closer) (s.reads false .word).token.kind) (mode : Mode) :
    Stopping s (some closer) (s.reads true mode).token.kind ∨
      (mode = .key ∧ (s.reads true mode).token.kind.isText = true) := by
  have same : s.reads true .word = s.reads false .word := lex_true (stops.ne_lineBreak closes)
  have word := lex_of_word s.visible.operators s.tokens.policy true mode s.here
  rw [← same] at stops
  rcases stops with ends | stops
  · exact .inl (.inl (word.1 ends))
  · have closing : (s.reads true .word).token.kind.isCloser = true := by
      rcases stops with closed | ⟨closed, -⟩
      · rw [Option.some.inj closed]
        exact closes
      · exact closed
    rcases word.2 closing with kind | key
    · refine .inl (.inr ?_)
      rw [show (s.reads true mode).token.kind = (s.reads true .word).token.kind from kind]
      exact stops
    · exact .inr key

/-- Where an element may end without a separator. -/
lemma stops_iff {closer kind : TokenKind} :
    (kind = closer || kind = .endOfInput || (kind.isCloser && s.awaited.contains kind)) = true ↔
      Stopping s (some closer) kind := by
  simp only [Stopping, Bool.or_eq_true, decide_eq_true_eq, Bool.and_eq_true, List.contains_iff_mem,
    Option.some.injEq, or_assoc]
  exact or_left_comm

/-- Where a line is broken in front of the next token, its turns are not taken. -/
lemma Raises.behindBreak {offset : Nat} (raises : Raises text (Within low (3 * offset + 1)) s t)
    (breaks : BehindBreak text offset) : Raises text (Within low (3 * offset)) s t :=
  ⟨raises.strides, raises.complains.behindBreak breaks⟩

/-- **A token that is misplaced** is taken, and that is said of it. -/
lemma raises_misplaced {next : Parser β} {result : β → ParserState → Prop} (amid : Amid text s)
    {cause : Cause} (ranks : cause.Ranks 0) (more : (s.reads true mode).token.kind ≠ .endOfInput)
    (h : ∀ t, Raises text (Within (3 * front s) (3 * front t)) s t → Leaves next t result) :
    Leaves (do skipToken true mode; complain (s.reads true mode).token.start cause; next) s result := by
  refine (raises_skipToken amid true mode).bind fun _ t taken => ?_
  obtain ⟨skipped, place⟩ := taken
  rw [start_reads]
  refine (raises_complain (amid.raises skipped) (front s) ranks).bind fun _ u noted => h u ?_
  obtain ⟨complains, rests, -⟩ := noted
  have past : front s < front u := by
    rw [rests.front_eq]
    exact Nat.lt_of_lt_of_le (begin_lt_here more place) (offset_le_front t)
  exact (skipped.behind complains).mono fun _ same => ⟨by omega, by omega⟩

/-- A separator that is taken, be it a line break: what is said of the token behind it has turns of its
own. -/
lemma raises_skipSeparator {r : ParserState} (amid : Amid text s)
    (before : Complains text (Within low (3 * front s + 1)) r s) (le : low ≤ 3 * front s)
    (separates : (s.reads false mode).token.kind = .comma ∨
      (s.reads false mode).token.kind = .lineBreak) :
    Leaves (skipToken false mode) s fun _ t => Strides s t ∧
      ∃ high, low ≤ high ∧ high ≤ 3 * front t ∧ Complains text (Within low high) r t := by
  refine (raises_skipToken amid false mode).mono fun _ t taken => ⟨taken.1.strides, ?_⟩
  obtain ⟨skipped, place⟩ := taken
  by_cases breaks : (s.reads false mode).token.kind = .lineBreak
  · have front_eq : front t = front s := by
      obtain ⟨_, -, -, -, begins⟩ := lex_lineBreak breaks
      exact congrArg Place.offset ((congrArg (Place.begin true) place).trans begins)
    exact ⟨3 * front s, le, by omega,
      (before.behindBreak (amid.behindBreak breaks)).before skipped.complains⟩
  · have past : front s < t.here.offset := by
      rw [← (begin_eq breaks).2]
      exact begin_lt_here (fun ends => by simp [ends] at separates) place
    have further := offset_le_front t
    exact ⟨3 * front t, by omega, Nat.le_refl _,
      (before.mono fun _ within => ⟨within.1, by have := within.2; omega⟩).before skipped.complains⟩

/-- **A separator that is missing**: what is said of that is behind what was said before, and where the
next word does not stop the skipping, what is said of the token behind it has turns of its own. -/
lemma raises_missingSeparator {r : ParserState} (amid : Amid text s) {cause : Cause}
    (ranks : cause.Ranks 1) (closer : Option TokenKind)
    (before : Complains text (Within low (3 * front s + 1)) r s) (le : low ≤ 3 * front s)
    (inside : (s.reads false mode).token.kind ≠ .lineBreak) :
    Leaves (do complain (s.reads false mode).token.start cause; recover closer) s fun _ t =>
      Strides s t ∧ Complains text (Within low (3 * front s + 2)) r t ∧
        (front s < front t ∨
          Stopping s closer (s.reads false .word).token.kind ∧ Rests s t) := by
  obtain ⟨-, begins⟩ := begin_eq inside
  have begun : (s.reads false mode).token.start = front s := by
    rw [← begins]
    exact (covers_reads s false mode).start
  refine (raises_complain amid _ ranks).bind fun _ t noted => ?_
  obtain ⟨complains, rests, told⟩ := noted
  rw [begun] at complains
  refine (raises_recover (amid.raises complains) told closer).mono fun _ u passed => ?_
  obtain ⟨silent, passed⟩ := passed
  refine ⟨complains.strides.trans silent.strides, ?_, ?_⟩
  · exact (before.snoc complains.complains (by omega)).before silent.complains
  · refine passed.imp (fun past => ?_) fun stops => ⟨?_, rests.trans stops.2⟩
    · rw [rests.here, begins] at past
      exact Nat.lt_of_lt_of_le past (offset_le_front u)
    · rw [← complains.strides.reads_eq rests.here, Stopping, ← rests.awaited]
      exact stops.1

/-- **Onward in a group**: complaints so far have turns from one on, and those about what follows are
free to come. -/
def Proceeds (text : List Char) (mode : Mode) (closer : TokenKind) (low : Nat) (s t : ParserState) :
    Prop :=
  ∃ high, low ≤ high ∧ Free mode closer high t ∧ Raises text (Within low high) s t

/-- Past the tokens that were complained of. -/
lemma Raises.proceeds {closer : TokenKind} (raises : Raises text (Within low high) s t)
    (le : low ≤ high) (le' : high ≤ 3 * front t) : Proceeds text mode closer low s t :=
  ⟨high, le, .inl le', raises⟩

/-- **A separator behind an element**: complaints about what follows are free to come. -/
lemma raises_separator {r : ParserState} {closer : TokenKind} (amid : Amid text s)
    (closes : closer.isCloser = true) (before : Raises text (Within low (3 * front s + 1)) r s)
    (le : low ≤ 3 * front s) :
    Leaves (separator mode closer) s fun _ t => Proceeds text mode closer low r t := by
  refine (raises_peek amid false mode).bind fun token t looked => ?_
  obtain ⟨quiet, rfl, rests⟩ := looked
  have amid' := amid.raises quiet
  have front_eq := rests.front_eq
  have same := quiet.strides.reads_eq rests.here
  have before := before.before quiet
  rw [← same] at *
  rw [← front_eq] at before le
  split
  · rename_i separates
    refine (raises_skipSeparator amid' before.complains le (by simpa using separates)).mono
      fun _ u taken => ?_
    obtain ⟨strides, high, le, le', complains⟩ := taken
    exact ⟨high, le, .inl le', before.strides.trans strides, complains⟩
  rename_i separates
  have inside : (t.reads false mode).token.kind ≠ .lineBreak := fun breaks => by
    simp [breaks] at separates
  obtain ⟨onLine, begins⟩ := begin_eq inside
  refine .closesAwaited ?_
  split
  · rename_i stops
    refine .pure ⟨3 * front t + 1, by omega, .inr (.inl ⟨?_, Nat.le_refl _⟩), before⟩
    rw [onLine]
    exact stops_iff.mp stops
  · rename_i going
    have ranks : (Cause.expectedSeparator closer (t.reads false mode).token).Ranks 1 :=
      .of_lead "expected ',' or " _ ((String.append_assoc ..).trans (String.append_assoc ..))
        (by decide) (by decide) (by decide)
    refine (raises_missingSeparator amid' ranks (some closer) before.complains le inside).mono
      fun _ u passed => ?_
    obtain ⟨strides, complains, past | ⟨stops, rests⟩⟩ := passed
    · exact Raises.proceeds ⟨before.strides.trans strides, complains⟩ (by omega) (by omega)
    · -- What stops the skipping did not end the group, and so it is a key.
      rcases stops.of_word closes mode with ends | ⟨key, reads⟩
      · rw [onLine] at ends
        exact absurd (stops_iff.mpr ends) going
      · rw [← strides.reads_eq rests.here] at reads
        have front_eq := rests.front_eq
        exact ⟨3 * front t + 2, by omega, .inr (.inr ⟨key, reads, by omega⟩),
          before.strides.trans strides, complains⟩

/-- A parser that rests reads on from the same turn. -/
lemma Free.rests {closer : TokenKind} (free : Free mode closer low s) (rests : Rests s t)
    (strides : Strides s t) : Free mode closer low t := by
  rw [Free, rests.front_eq, strides.reads_eq rests.here]
  exact free.imp_right (.imp_left (.imp_left rests.stopping))

/-- Where the skipping of words stops, something may have been said of the word. -/
lemma Free.of_stopping {closer : TokenKind} (closes : closer.isCloser = true)
    (stops : Stopping s (some closer) (s.reads false .word).token.kind)
    (le : low ≤ 3 * (s.here.begin false).offset + 1) : Free .key closer low s := by
  rw [(begin_eq (stops.ne_lineBreak closes)).2] at le
  rcases stops.of_word closes .key with ends | ⟨key, reads⟩
  · exact .inr (.inl ⟨ends, le⟩)
  · exact .inr (.inr ⟨key, reads, by omega⟩)

/-- A closer that is taken, or a group that is not closed: the turns of what was said before. -/
lemma turns_of_ended {start : Nat} (first : Raises text (fun turn => turn = 3 * start) s t)
    (le : low ≤ 3 * front t + 1) : low ≤ 3 * front t + 1 ∧
      Raises text (fun turn => turn = 3 * start ∨ Within low (3 * front t + 1) turn) s t :=
  ⟨le, first.mono fun _ => .inl⟩

/-- The turns of an element, and those of the elements behind it. -/
lemma turns_append {start : Nat} (before : Raises text (Within low middle) s t)
    (after : Raises text (fun turn => turn = 3 * start ∨ Within middle (3 * front u + 1) turn) t u)
    (lt : 3 * start < low) (le : low ≤ middle) (le' : middle ≤ 3 * front u + 1) :
    low ≤ 3 * front u + 1 ∧
      Raises text (fun turn => turn = 3 * start ∨ Within low (3 * front u + 1) turn) s u := by
  refine ⟨Nat.le_trans le le', (before.append after ?_).mono ?_⟩
  · rintro turn ⟨above, below⟩ (same | ⟨further, -⟩) <;> omega
  · rintro turn (⟨above, below⟩ | same | ⟨above, below⟩)
    · exact .inr ⟨above, by omega⟩
    · exact .inl same
    · exact .inr ⟨by omega, below⟩

/-- The first token of a round. -/
lemma raises_peek_first {step : Token → Parser β} {bound : ParserState → Prop}
    {turns : ParserState → Nat → Prop} (amid : Amid text s)
    (h : ∀ t, Amid text t → Rests s t → Strides s t →
      Leaves (step (t.reads true mode).token) t fun _ u => bound u ∧ Raises text (turns u) t u) :
    Leaves (peek true mode >>= step) s fun _ u => bound u ∧ Raises text (turns u) s u := by
  refine (raises_peek amid true mode).bind fun token t looked => ?_
  obtain ⟨quiet, rfl, rests⟩ := looked
  rw [← quiet.strides.reads_eq rests.here]
  exact (h t (amid.raises quiet) rests quiet.strides).mono fun _ u told =>
    ⟨told.1, quiet.behind told.2⟩

section Mistakes

variable {r : ParserState} {next : Parser β} {result : β → ParserState → Prop}

/-- **A key without a colon**: the token behind it is complained of. -/
lemma raises_missingColon (amid : Amid text s) (quiet : Silences text r s)
    (past : front r < s.here.offset) (le : low ≤ 3 * front r + 2) {cause : Cause}
    (ranks : cause.Ranks 0)
    (h : ∀ t, Proceeds text .key .rBrace low r t → Leaves next t result) :
    Leaves (do complain (s.reads false mode).token.start cause; recover (some .rBrace); next) s
      result := by
  have begun : (s.reads false mode).token.start = (s.here.begin false).offset :=
    (covers_reads s false mode).start
  have behind : s.here.offset ≤ (s.here.begin false).offset := (reaches_begin false _).offset_le
  refine (raises_complain amid _ ranks).bind fun _ t noted => ?_
  obtain ⟨complains, rests, told⟩ := noted
  rw [begun] at complains
  have before : Raises text (Within low (3 * (s.here.begin false).offset + 1)) r t :=
    (quiet.behind complains).mono fun _ same => ⟨by omega, by omega⟩
  refine (raises_recover (amid.raises complains) told (some .rBrace)).bind fun _ u passed => h u ?_
  obtain ⟨silent, passed⟩ := passed
  rw [rests.here] at passed
  rcases passed with past' | ⟨stops, rests'⟩
  · have onward := offset_le_front u
    exact (before.before silent).proceeds (by omega) (by omega)
  · refine ⟨_, by omega, .rests (.of_stopping rfl stops ?_) rests' silent.strides,
      before.before silent⟩
    rw [rests.here]

/-- **A token that is no key**, and does not end the object: it is skipped, unless a line is broken in
front of it. -/
lemma raises_missingKey (amid : Amid text s)
    (going : ¬ Stopping s (some .rBrace) (s.reads true .key).token.kind)
    (other : ¬ (s.reads true .key).token.kind.isText = true) (le : low ≤ 3 * front s)
    (h : ∀ t, Proceeds text .key .rBrace low s t → Leaves next t result) :
    Leaves (do
      complain (s.reads true .key).token.start (.expectedKey (s.reads true .key).token)
      recover (some .rBrace)
      next) s result := by
  have ranks : (Cause.expectedKey (s.reads true .key).token).Ranks 0 :=
    .of_apart "expected a key, found " _ rfl (by decide)
  rw [start_reads]
  refine (raises_complain amid (front s) ranks).bind fun _ t noted => ?_
  obtain ⟨complains, rests, told⟩ := noted
  have front_eq := rests.front_eq
  have before : Raises text (Within low (3 * front s + 1)) s t :=
    complains.mono fun _ same => ⟨by omega, by omega⟩
  refine (raises_recover (amid.raises complains) told (some .rBrace)).bind fun _ u passed => h u ?_
  obtain ⟨silent, past | ⟨stops, -⟩⟩ := passed
  · have further : front t ≤ front u := silent.front_le
    by_cases breaks : (s.reads false .word).token.kind = .lineBreak
    · exact ((before.behindBreak (amid.behindBreak breaks)).before silent).proceeds le (by omega)
    · rw [rests.here, (begin_eq breaks).2] at past
      have onward := offset_le_front u
      exact (before.before silent).proceeds (by omega) (by omega)
  · -- What stops the skipping would have ended the group, or been read as a key.
    have same := complains.strides.reads_eq rests.here true .key
    rcases stops.of_word rfl .key with ends | ⟨-, key⟩
    · rw [same, Stopping, rests.awaited] at ends
      exact absurd ends going
    · exact absurd (same ▸ key) other

end Mistakes

/-- A property is added, unless its key is taken and that is reported. -/
lemma raises_addProperty (amid : Amid text s) (key : Token) (value : Node)
    (properties : List (String × Node)) :
    Leaves (addProperty options key value properties) s fun _ t =>
      Raises text (fun turn => turn = 3 * key.start + 2) s t ∧ t.here = s.here := by
  have ranks : (Cause.duplicateKey key.content).Ranks 2 :=
    .of_lead "duplicate key " _ rfl (by decide) (by decide) (by decide)
  rw [addProperty]
  split
  · have parsed := (Report.lexical_withSeverity _ options.duplicatePropertySeverity).not.mpr
      (ranks.not_lexical key.start)
    refine (raises_note amid parsed).bind fun _ t noted => .modify (.pure ?_)
    obtain ⟨raises, rests, -⟩ := noted
    rw [Report.turn_withSeverity, ranks.turn] at raises
    have amid := amid.raises raises
    have scope : t.scope.map (·.drop value) = t.scope := by simp [amid.lone.scope]
    exact ⟨raises.before (.change amid.settled rfl rfl scope rfl rfl), rests.here⟩
  · exact .pure ⟨(Raises.refl amid).mono fun _ none => none.elim, rfl⟩

end Parser

end TreeLang
