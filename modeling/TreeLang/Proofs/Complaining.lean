import TreeLang.Proofs.Enclosing

/-!
# What a step complains of

A report says where it stands and how it is worded.  What is wrong with a token is reported where the
token is read, and no more than once; everything else is a complaint of the parser about a token that it
looks at, and the parser may look at one token more than once.  This file puts the complaints in an order:
by their tokens first and, where there are several about one token, by their wordings.  A step then
complains in some part of this order, and steps one behind the other do so in parts that are apart.

A token in front of which a line is broken is left out.  There a separator, or what is skipped behind a
mistake, may be no more than the line break, and the token is looked at as if for the first time.

* `Wording.rank`, **`Report.turn`** — the order of complaints.
* `Cause.Ranks` — how a complaint begins tells its rank.
* `BehindBreak` — a token in front of which a line is broken.
* `Parser.Audited` — what was wrong with tokens was reported once.
* **`Parser.Complains`** — the turns of what is reported between two states.
* `Parser.StaysQuiet` — steps that complain of nothing, such as taking a token, and recovering.
-/

namespace TreeLang

variable {text : List Char} {operators : OperatorRegistry} {policy : EscapePolicy}
  {skipBreaks first : Bool} {mode : Mode} {p : Place}

/-! ## Wordings -/

namespace Wording

/-- How complaints begin that may follow another one about the same token. -/
def late : List String :=
  ["expected ',' or ", "expected a line break", "duplicate key "]

/-- How reports begin that are about the characters of a token. -/
def aboutCharacters : List String :=
  ["unterminated ", "invalid unicode escape "]

/-- A text begins with some words. -/
def Begins (words : String) (wording : List Char) : Prop :=
  words.toList <+: wording

instance (words : String) (wording : List Char) : Decidable (Begins words wording) :=
  inferInstanceAs (Decidable (_ <+: _))

/-- **The rank of a wording** among those about one token: a complaint that nothing can be read comes
first, one that something is missing second, and one that a key is taken last. -/
def rank (wording : List Char) : Nat :=
  if Begins "duplicate key " wording then 2
  else if Begins "expected ',' or " wording ∨ Begins "expected a line break" wording then 1
  else 0

/-- Whether a report is about the characters of a token. -/
def Lexical (wording : List Char) : Prop :=
  Begins "unterminated " wording ∨ Begins "invalid unicode escape " wording

instance (wording : List Char) : Decidable (Lexical wording) :=
  inferInstanceAs (Decidable (_ ∨ _))

/-- A beginning that tells which of the words above a text begins with. -/
def Clear (lead : String) : Prop :=
  ∀ words ∈ late ++ aboutCharacters, lead.toList <+: words.toList → words.toList <+: lead.toList

instance (lead : String) : Decidable (Clear lead) :=
  inferInstanceAs (Decidable (∀ words ∈ _, _))

lemma begins_append {lead : String} (clear : Clear lead) (words : String)
    (mem : words ∈ late ++ aboutCharacters) (rest : List Char) :
    Begins words (lead.toList ++ rest) ↔ Begins words lead.toList := by
  refine ⟨fun begins => ?_, fun begins => begins.trans (List.prefix_append _ _)⟩
  rcases List.prefix_or_prefix_of_prefix begins (List.prefix_append lead.toList rest) with h | h
  · exact h
  · exact clear words mem h

lemma rank_append {lead : String} (clear : Clear lead) (rest : List Char) :
    rank (lead.toList ++ rest) = rank lead.toList := by
  simp only [rank, begins_append clear "duplicate key " (by decide),
    begins_append clear "expected ',' or " (by decide),
    begins_append clear "expected a line break" (by decide)]

lemma lexical_append {lead : String} (clear : Clear lead) (rest : List Char) :
    Lexical (lead.toList ++ rest) ↔ Lexical lead.toList := by
  simp only [Lexical, begins_append clear "unterminated " (by decide),
    begins_append clear "invalid unicode escape " (by decide)]

/-- A beginning that tells that a text begins with none of the words above. -/
def Apart (lead : String) : Prop :=
  ∀ words ∈ late ++ aboutCharacters, ¬ words.toList <+: lead.toList ∧ ¬ lead.toList <+: words.toList

instance (lead : String) : Decidable (Apart lead) :=
  inferInstanceAs (Decidable (∀ words ∈ _, _))

namespace Apart

variable {lead : String}

lemma clear (apart : Apart lead) : Clear lead :=
  fun words mem begins => absurd begins (apart words mem).2

lemma not_lexical (apart : Apart lead) : ¬ Lexical lead.toList := by
  rintro (begins | begins)
  · exact (apart "unterminated " (by decide)).1 begins
  · exact (apart "invalid unicode escape " (by decide)).1 begins

lemma rank (apart : Apart lead) : rank lead.toList = 0 := by
  have duplicate : ¬ Begins "duplicate key " lead.toList := (apart _ (by decide)).1
  have comma : ¬ Begins "expected ',' or " lead.toList := (apart _ (by decide)).1
  have line : ¬ Begins "expected a line break" lead.toList := (apart _ (by decide)).1
  rw [Wording.rank, if_neg duplicate, if_neg (not_or.mpr ⟨comma, line⟩)]

end Apart

lemma rank_le (wording : List Char) : rank wording ≤ 2 := by
  rw [rank]
  split_ifs <;> omega

end Wording

namespace Report

/-- Where a report stands. -/
def place (report : Report) : Nat :=
  report.offset.getD 0

/-- Whether a report is about the characters of a token. -/
def Lexical (report : Report) : Prop :=
  Wording.Lexical report.message.toList

/-- **The turn of a report**: by its token, and among those about one token by its wording. -/
def turn (report : Report) : Nat :=
  3 * report.place + Wording.rank report.message.toList

@[simp] lemma turn_withSeverity (report : Report) (severity : Severity) :
    (report.withSeverity severity).turn = report.turn := rfl

@[simp] lemma lexical_withSeverity (report : Report) (severity : Severity) :
    (report.withSeverity severity).Lexical ↔ report.Lexical := Iff.rfl

/-- A report is turned by where it stands and how it is worded. -/
lemma turn_congr {a b : Report} (offset : a.offset = b.offset) (message : a.message = b.message) :
    a.turn = b.turn := by
  rw [turn, turn, place, place, offset, message]

end Report

/-- **A complaint of some rank**, by how it begins. -/
structure Cause.Ranks (cause : Cause) (rank : Nat) : Prop where
  parsed : ¬ Wording.Lexical cause.message.toList
  rank : Wording.rank cause.message.toList = rank

lemma Cause.Ranks.of_lead {cause : Cause} {rank : Nat} (lead rest : String)
    (same : cause.message = lead ++ rest) (clear : Wording.Clear lead)
    (parsed : ¬ Wording.Lexical lead.toList) (known : Wording.rank lead.toList = rank) :
    cause.Ranks rank := by
  refine ⟨?_, ?_⟩
  · rwa [same, String.toList_append, Wording.lexical_append clear]
  · rw [same, String.toList_append, Wording.rank_append clear, known]

/-- What is worded like none of the later complaints comes first. -/
lemma Cause.Ranks.of_apart {cause : Cause} (lead rest : String) (same : cause.message = lead ++ rest)
    (apart : Wording.Apart lead) : cause.Ranks 0 :=
  .of_lead lead rest same apart.clear apart.not_lexical apart.rank

lemma Cause.Ranks.of_whole {cause : Cause} (apart : Wording.Apart cause.message) : cause.Ranks 0 :=
  .of_apart cause.message "" String.append_empty.symm apart

lemma Cause.Ranks.turn {cause : Cause} {rank : Nat} (ranks : cause.Ranks rank) (offset : Nat) :
    (Report.errorAt offset cause).turn = 3 * offset + rank :=
  congrArg (3 * offset + ·) ranks.rank

lemma Cause.Ranks.not_lexical {cause : Cause} {rank : Nat} (ranks : cause.Ranks rank) (offset : Nat) :
    ¬ (Report.errorAt offset cause).Lexical :=
  ranks.parsed

/-! ## Where lines are broken -/

/-- **A line is broken in front of the token** at an offset of a text: from a line break on, no more
than line breaks, blanks and comments stand in front of it. -/
def BehindBreak (text : List Char) (offset : Nat) : Prop :=
  ∃ p, (Place.start text).Reaches p ∧ p.rest.head? = some '\n' ∧ (p.begin true).offset = offset

/-- In a text of one line there is no such token. -/
lemma not_behindBreak {offset : Nat} (line : '\n' ∉ text) : ¬ BehindBreak text offset := by
  rintro ⟨p, reaches, breaks, -⟩
  rw [reaches.head?] at breaks
  exact line (List.mem_of_getElem? breaks)

/-- A line break is the character that the next token begins with. -/
lemma skipTrivia_of_lineBreak
    (breaks : (lex operators policy false mode p).token.kind = .lineBreak) :
    ∃ q rest, skipTrivia false p = .token q ∧ q.rest = '\n' :: rest ∧
      (lex operators policy false mode p).after = q.next := by
  cases skips : skipTrivia false p with
  | openComment q => simp [lex, skips] at breaks
  | token q =>
    have token : lex operators policy false mode p = lexHere operators policy mode q := by
      simp [lex, skips]
    have newline : q.rest.head? = some '\n' := by
      rcases kind_lexHere_cases operators policy mode q with ⟨-, kind⟩ | ⟨c, head, kind⟩
      · rw [← token, breaks] at kind
        cases kind
      · rw [← token, breaks] at kind
        rcases kind with kind | ⟨-, kind⟩
        · rw [head, ← delimiter?_sign kind]
          rfl
        · cases kind
    obtain ⟨rest, hrest⟩ : ∃ rest, q.rest = '\n' :: rest := List.head?_eq_some_iff.mp newline
    refine ⟨q, rest, rfl, hrest, ?_⟩
    rw [token]
    simp [lexHere, newline, delimiter?]

/-- Where line breaks are skipped it does not matter whether one was taken before. -/
lemma skipTrivia_after_lineBreak
    (breaks : (lex operators policy false mode p).token.kind = .lineBreak) :
    skipTrivia true (lex operators policy false mode p).after = skipTrivia true p := by
  obtain ⟨q, rest, skips, hrest, after⟩ := skipTrivia_of_lineBreak breaks
  rw [after, skipTrivia_further skips, skipTrivia_cons hrest, if_neg (by simp),
    if_pos isBlank_newline]

/-- A token that is a line break stands in front of the next one. -/
lemma lex_lineBreak (breaks : (lex operators policy false mode p).token.kind = .lineBreak) :
    ∃ q, p.Reaches q ∧ q.rest.head? = some '\n' ∧ q.begin true = p.begin true ∧
      (lex operators policy false mode p).after.begin true = p.begin true := by
  obtain ⟨q, rest, skips, hrest, -⟩ := skipTrivia_of_lineBreak breaks
  have reaches := reaches_begin false p
  rw [Place.begin, skips, TriviaEnd.place] at reaches
  refine ⟨q, reaches, by rw [hrest]; rfl, ?_, ?_⟩
  · rw [Place.begin, Place.begin, skipTrivia_further skips]
  · rw [Place.begin, Place.begin, skipTrivia_after_lineBreak breaks]

/-- A token that is not the last one ends behind where it begins. -/
lemma begin_lt_after (more : (lex operators policy skipBreaks mode p).token.kind ≠ .endOfInput) :
    (p.begin skipBreaks).offset < (lex operators policy skipBreaks mode p).after.offset := by
  have total := (covers_lex operators policy skipBreaks mode p).reaches.total
  suffices (lex operators policy skipBreaks mode p).after.rest.length
      < (p.begin skipBreaks).rest.length by omega
  rw [Place.begin]
  cases skips : skipTrivia skipBreaks p with
  | openComment q =>
    have nonempty := (skipTrivia_openComment skips).1
    simpa [lex, skips, TriviaEnd.place] using nonempty
  | token q =>
    have token : lex operators policy skipBreaks mode p = lexHere operators policy mode q := by
      simp [lex, skips]
    rw [token, TriviaEnd.place]
    refine lexHere_shortens (stands_of_skipTrivia skips) fun empty => more ?_
    rw [token]
    simp [lexHere, empty]

/-! ## What is wrong with a token -/

lemma Report.OfToken.lexical {report : Report} (ofToken : report.OfToken) : report.Lexical := by
  cases ofToken with
  | escape offset letter digits shown =>
    have same : (Cause.invalidEscape letter digits shown).message = "invalid unicode escape " ++ _ := rfl
    rw [Lexical, message]
    show Wording.Lexical (Cause.invalidEscape letter digits shown).message.toList
    rw [same, String.toList_append]
    exact .inr (List.prefix_append _ _)
  | quote offset quote => exact (by decide : Wording.Lexical "unterminated quoted literal".toList)
  | comment offset => exact (by decide : Wording.Lexical "unterminated block comment".toList)

namespace Parser

variable {α β : Type} {s t u : ParserState} {low middle high : Nat} {P Q : Nat → Prop}

/-- **What was wrong with the tokens was reported once**, or waits to be: at no offset twice, and only
at those that the stream remembers. -/
structure Audited (s : ParserState) : Prop where
  waiting : ∀ report ∈ s.tokens.reports, report.Lexical
  known : ∀ report ∈ s.reports.toList ++ s.tokens.reports, report.Lexical →
    report.place ∈ s.tokens.reported
  once : (s.reports.toList ++ s.tokens.reports).Pairwise fun a b =>
    a.Lexical → b.Lexical → a.place ≠ b.place

namespace Audited

/-- What is read ahead, and how far, is of no importance. -/
lemma of_same (audited : Audited s) (reports : t.reports.toList = s.reports.toList)
    (waiting : t.tokens.reports = s.tokens.reports) (reported : t.tokens.reported = s.tokens.reported) :
    Audited t := by
  refine ⟨?_, ?_, ?_⟩
  · rw [waiting]
    exact audited.waiting
  · rw [reports, waiting, reported]
    exact audited.known
  · rw [reports, waiting]
    exact audited.once

lemma report (audited : Audited s) {report : Report} (lexical : report.Lexical) :
    Audited { s with tokens := s.tokens.report report } := by
  rw [TokenStream.report]
  split
  · exact audited
  · rename_i unknown
    have fresh : report.place ∉ s.tokens.reported := by simpa [Report.place] using unknown
    refine ⟨?_, ?_, ?_⟩
    · rintro other mem
      rcases List.mem_append.mp mem with mem | mem
      · exact audited.waiting other mem
      · rwa [List.mem_singleton.mp mem]
    · intro other mem lexical
      rw [← List.append_assoc] at mem
      rcases List.mem_append.mp mem with mem | mem
      · exact List.mem_cons_of_mem _ (audited.known other mem lexical)
      · rw [List.mem_singleton.mp mem]
        exact List.mem_cons_self
    · rw [← List.append_assoc]
      refine List.pairwise_append.mpr ⟨audited.once, List.pairwise_singleton _ _, ?_⟩
      rintro other mem _ last lexical - same
      rw [List.mem_singleton.mp last] at same
      exact fresh (same ▸ audited.known other mem lexical)

lemma absorb (audited : Audited s) {reports : List Report}
    (lexical : ∀ report ∈ reports, report.Lexical) :
    Audited { s with tokens := s.tokens.absorb reports } := by
  induction reports generalizing s with
  | nil => exact audited
  | cons report rest ih =>
    exact ih (audited.report (lexical report List.mem_cons_self)) fun other mem =>
      lexical other (List.mem_cons_of_mem _ mem)

end Audited

/-! ## Complaints -/

/-- Whether a complaint has a turn of its own: it is about no characters, and about a token in front of
which no line is broken. -/
def Counts (text : List Char) (report : Report) : Prop :=
  ¬ report.Lexical ∧ ¬ BehindBreak text report.place

/-- **What is reported between two states**: every complaint has a turn of its own, of those given, and
what is wrong with the tokens is reported once, as it was before. -/
def Complains (text : List Char) (turns : Nat → Prop) (s t : ParserState) : Prop :=
  Audited s → Audited t ∧ ∃ reports, t.reports.toList = s.reports.toList ++ reports ∧
    (reports.Pairwise fun a b => Counts text a → Counts text b → a.turn ≠ b.turn) ∧
    ∀ report ∈ reports, Counts text report → turns report.turn

/-- Nothing is complained of. -/
abbrev Quietly (text : List Char) : ParserState → ParserState → Prop :=
  Complains text fun _ => False

/-- The turns from one to another one. -/
def Within (low high turn : Nat) : Prop :=
  low ≤ turn ∧ turn < high

namespace Complains

/-- Only what is wrong with tokens is reported. -/
lemma quietly (h : Audited s → Audited t ∧ ∃ reports,
    t.reports.toList = s.reports.toList ++ reports ∧ ∀ report ∈ reports, report.Lexical) :
    Quietly text s t := by
  intro audited
  obtain ⟨audited, reports, grown, lexical⟩ := h audited
  refine ⟨audited, reports, grown, ?_, fun report mem counts => counts.1 (lexical report mem)⟩
  exact List.pairwise_of_forall_mem_list fun a mem _ _ counts => absurd (lexical a mem) counts.1

lemma of_same (reports : t.reports.toList = s.reports.toList)
    (waiting : t.tokens.reports = s.tokens.reports) (reported : t.tokens.reported = s.tokens.reported) :
    Quietly text s t :=
  quietly fun audited => ⟨audited.of_same reports waiting reported, [],
    by simp [reports], List.forall_mem_nil _⟩

lemma refl (s : ParserState) : Quietly text s s :=
  of_same rfl rfl rfl

/-- Complaints one behind the other have turns of their own, if those are apart. -/
lemma append (first : Complains text P s t) (second : Complains text Q t u)
    (apart : ∀ turn, P turn → ¬ Q turn) : Complains text (fun turn => P turn ∨ Q turn) s u := by
  intro audited
  obtain ⟨audited, before, grown, distinct, turns⟩ := first audited
  obtain ⟨audited, after, grown', distinct', turns'⟩ := second audited
  refine ⟨audited, before ++ after, by rw [grown', grown, List.append_assoc],
    List.pairwise_append.mpr ⟨distinct, distinct', fun a mem b mem' counts counts' same => ?_⟩, ?_⟩
  · exact apart a.turn (turns a mem counts) (same ▸ turns' b mem' counts')
  · intro report mem counts
    rcases List.mem_append.mp mem with mem | mem
    · exact .inl (turns report mem counts)
    · exact .inr (turns' report mem counts)

lemma mono (complains : Complains text P s t) (within : ∀ turn, P turn → Q turn) :
    Complains text Q s t := by
  intro audited
  obtain ⟨audited, reports, grown, distinct, turns⟩ := complains audited
  exact ⟨audited, reports, grown, distinct, fun report mem counts =>
    within _ (turns report mem counts)⟩

/-- Where nothing is complained of first. -/
lemma behind (first : Quietly text s t) (second : Complains text P t u) : Complains text P s u :=
  (first.append second fun _ none => none.elim).mono fun _ turn => turn.resolve_left id

/-- Where nothing is complained of afterwards. -/
lemma before (first : Complains text P s t) (second : Quietly text t u) : Complains text P s u :=
  (first.append second fun _ _ none => none).mono fun _ turn => turn.resolve_right id

/-- Turns that follow one another. -/
lemma within (first : Complains text (Within low middle) s t)
    (second : Complains text (Within middle high) t u) (le : low ≤ middle) (le' : middle ≤ high) :
    Complains text (Within low high) s u :=
  (first.append second fun _ first second => Nat.not_lt_of_le second.1 first.2).mono fun _ turn =>
    turn.elim (fun first => ⟨first.1, Nat.lt_of_lt_of_le first.2 le'⟩)
      fun second => ⟨Nat.le_trans le second.1, second.2⟩

/-- One more complaint. -/
lemma snoc {turn : Nat} (first : Complains text (Within low turn) s t)
    (second : Complains text (fun other => other = turn) t u) (le : low ≤ turn) :
    Complains text (Within low (turn + 1)) s u :=
  first.within (second.mono fun _ same => ⟨Nat.le_of_eq same.symm, by omega⟩) le (Nat.le_succ _)

/-- Where a line is broken in front of the token, its turns are not taken. -/
lemma behindBreak {offset : Nat} (complains : Complains text (Within low (3 * offset + 1)) s t)
    (breaks : BehindBreak text offset) : Complains text (Within low (3 * offset)) s t := by
  intro audited
  obtain ⟨audited, reports, grown, distinct, turns⟩ := complains audited
  refine ⟨audited, reports, grown, distinct, fun report mem counts => ?_⟩
  obtain ⟨le, lt⟩ := turns report mem counts
  refine ⟨le, Nat.lt_of_le_of_ne (Nat.le_of_lt_succ lt) fun same => counts.2 ?_⟩
  have bound := Wording.rank_le report.message.toList
  rw [Report.turn] at same
  obtain rfl : report.place = offset := by omega
  exact breaks

end Complains

/-- A report of the parser, in its turn. -/
lemma complains_note (attends : s.recovering = false) {report : Report} (parsed : ¬ report.Lexical) :
    Leaves (note report) s fun _ t => Complains text (fun turn => turn = report.turn) s t := by
  intro _ t run audited
  rw [note_eq, if_neg (by simp [attends])] at run
  cases run
  have grown : (s.reports.push report).toList ++ s.tokens.reports
      = s.reports.toList ++ [report] ++ s.tokens.reports := by rw [Array.toList_push]
  refine ⟨⟨audited.waiting, fun other mem lexical => ?_, ?_⟩, [report], Array.toList_push ..,
    List.pairwise_singleton _ _, fun other mem _ => by rw [List.mem_singleton.mp mem]⟩
  · refine audited.known other ?_ lexical
    rw [grown, List.append_assoc, List.mem_append, List.mem_append] at mem
    rcases mem with mem | mem | mem
    · exact List.mem_append.mpr (.inl mem)
    · exact absurd (List.mem_singleton.mp mem ▸ lexical) parsed
    · exact List.mem_append.mpr (.inr mem)
  · rw [grown, List.append_assoc]
    obtain ⟨before, after, apart⟩ := List.pairwise_append.mp audited.once
    refine List.pairwise_append.mpr ⟨before, List.pairwise_cons.mpr
      ⟨fun _ _ lexical => absurd lexical parsed, after⟩, fun a mem b mem' => ?_⟩
    rcases List.mem_cons.mp mem' with rfl | mem'
    · exact fun _ lexical => absurd lexical parsed
    · exact apart a mem b mem'

/-! ## Steps that complain of nothing -/

/-- **A step that complains of nothing**, if it comes to an end. -/
def StaysQuiet (text : List Char) (step : Parser α) : Prop :=
  ∀ s, Leaves step s fun _ t => Quietly text s t

namespace StaysQuiet

lemma pure (value : α) : StaysQuiet text (Pure.pure value : Parser α) :=
  fun s => .pure (.refl s)

lemma throw (fault : Fault) : StaysQuiet text (throw fault : Parser α) :=
  fun _ _ _ run => nomatch run

lemma bind {step : Parser α} {next : α → Parser β} (first : StaysQuiet text step)
    (second : ∀ value, StaysQuiet text (next value)) : StaysQuiet text (step >>= next) :=
  fun s => (first s).bind fun value t before =>
    (second value t).mono fun _ _ after => before.behind after

lemma ite {condition : Prop} [Decidable condition] {step other : Parser α}
    (first : StaysQuiet text step) (second : StaysQuiet text other) :
    StaysQuiet text (if condition then step else other) := by
  split <;> assumption

/-- A change of what is in mind. -/
lemma modifyGet {change : ParserState → α × ParserState}
    (reports : ∀ s, (change s).2.reports = s.reports)
    (waiting : ∀ s, (change s).2.tokens.reports = s.tokens.reports)
    (reported : ∀ s, (change s).2.tokens.reported = s.tokens.reported) :
    StaysQuiet text (MonadStateOf.modifyGet change) := by
  rintro s _ _ ⟨⟩
  exact .of_same (congrArg _ (reports s)) (waiting s) (reported s)

lemma lookAhead (skipBreaks : Bool) (mode : Mode) : StaysQuiet text (lookAhead skipBreaks mode) := by
  rintro s _ _ ⟨⟩
  -- A token that is read anew, whatever was read ahead before.
  have anew : Quietly text s
      { s with tokens := (s.tokens.read s.visible.operators skipBreaks mode).2 } := by
    refine .quietly fun audited => ?_
    have cleared (handed : List ReadAhead) :
        Audited { s with tokens := { s.tokens with handed := handed, ahead := [] } } :=
      audited.of_same rfl rfl rfl
    exact ⟨(cleared _).absorb fun report mem => (ofToken_lex _ _ _ _ _ report mem).lexical,
      [], (List.append_nil _).symm, List.forall_mem_nil _⟩
  show Quietly text s
    { s with tokens := (s.tokens.next s.visible.operators skipBreaks mode).2 }
  rw [TokenStream.next]
  split
  · exact anew
  split
  · exact .of_same rfl rfl rfl
  · exact anew

lemma rewind : StaysQuiet text rewind :=
  modifyGet (fun _ => rfl) (fun _ => rfl) fun _ => rfl

lemma noteLexical : StaysQuiet text noteLexical := by
  intro s _ _ run
  rw [noteLexical_eq] at run
  cases run
  refine .quietly fun audited => ?_
  by_cases recovering : s.recovering = true
  · have same : s.flush.reports = s.reports := if_pos recovering
    refine ⟨⟨List.forall_mem_nil _, ?_, ?_⟩, [], by simp [same], List.forall_mem_nil _⟩
    · intro report mem
      rw [same] at mem
      exact audited.known report (List.mem_append.mpr (.inl (by simpa [ParserState.flush] using mem)))
    · rw [same]
      simpa [ParserState.flush] using (List.pairwise_append.mp audited.once).1
  · have same : s.flush.reports.toList = s.reports.toList ++ s.tokens.reports := by
      rw [show s.flush.reports = s.reports ++ s.tokens.reports from if_neg recovering,
        Array.toList_appendList]
    refine ⟨⟨List.forall_mem_nil _, ?_, ?_⟩, s.tokens.reports, same, audited.waiting⟩
    · rw [same, show s.flush.tokens.reports = [] from rfl, List.append_nil]
      exact audited.known
    · rw [same, show s.flush.tokens.reports = [] from rfl, List.append_nil]
      exact audited.once

lemma commit : StaysQuiet text commit :=
  (modifyGet (fun _ => rfl) (fun _ => rfl) fun _ => rfl).bind fun _ => noteLexical

lemma peek (skipBreaks : Bool) (mode : Mode) : StaysQuiet text (peek skipBreaks mode) :=
  (lookAhead skipBreaks mode).bind fun _ => rewind.bind fun _ => pure _

lemma advance (skipBreaks : Bool) (mode : Mode) : StaysQuiet text (advance skipBreaks mode) :=
  (lookAhead skipBreaks mode).bind fun _ => commit.bind fun _ => pure _

lemma forget : StaysQuiet text forget :=
  modifyGet (fun _ => rfl) (fun _ => rfl) fun _ => rfl

lemma skipToken (skipBreaks : Bool) (mode : Mode) : StaysQuiet text (skipToken skipBreaks mode) :=
  (advance skipBreaks mode).bind fun _ => pure _

lemma closesAwaited (kind : TokenKind) : StaysQuiet text (closesAwaited kind) :=
  fun s => .pure (.refl s)

lemma remaining : StaysQuiet text remaining :=
  fun s => .pure (.refl s)

lemma skipGroup (fuel : Nat) (closer : Option TokenKind) : StaysQuiet text (skipGroup fuel closer) := by
  induction fuel generalizing closer with
  | zero => exact throw _
  | succ fuel ih =>
    rw [Parser.skipGroup]
    refine (peek true .word).bind fun token => ite (pure _) ?_
    refine (closesAwaited _).bind fun _ => ite (pure _) ?_
    refine (skipToken true .word).bind fun _ => ite (pure _) ?_
    exact ite ((ih _).bind fun _ => ih _) (ih _)

lemma skipToSeparator (fuel : Nat) (closer : Option TokenKind) :
    StaysQuiet text (skipToSeparator fuel closer) := by
  induction fuel with
  | zero => exact throw _
  | succ fuel ih =>
    rw [Parser.skipToSeparator]
    refine (peek false .word).bind fun token => ite (pure _) ?_
    refine (closesAwaited _).bind fun _ => ite (pure _) ?_
    refine (skipToken false .word).bind fun _ => ite (pure _) ?_
    exact ite ((skipGroup fuel _).bind fun _ => ih) ih

/-- **Recovering is quiet**: nobody listens. -/
lemma recover (closer : Option TokenKind) : StaysQuiet text (recover closer) :=
  (modifyGet (fun _ => rfl) (fun _ => rfl) fun _ => rfl).bind fun _ => remaining.bind fun _ =>
    (skipToSeparator _ closer).bind fun _ => modifyGet (fun _ => rfl) (fun _ => rfl) fun _ => rfl

lemma groupHead? (nameMode : Mode) : StaysQuiet text (groupHead? nameMode) := by
  refine (lookAhead true nameMode).bind fun first =>
    ite (commit.bind fun _ => pure _) (ite ?_ (rewind.bind fun _ => pure _))
  exact (lookAhead false nameMode).bind fun second =>
    ite (commit.bind fun _ => pure _) (rewind.bind fun _ => pure _)

lemma operatorOf? (group : PriorityGroup) (skipBreaks : Bool) :
    StaysQuiet text (operatorOf? group skipBreaks) := by
  refine (peek skipBreaks .operation).bind fun token => ite ?_ (pure _)
  split
  · exact (skipToken skipBreaks .operation).bind fun _ => pure _
  · exact pure _

lemma statementKeyword? (token : Token) : StaysQuiet text (statementKeyword? token) := by
  rw [Parser.statementKeyword?]
  split
  · exact pure _
  · exact (lookAhead true .word).bind fun _ => (lookAhead false .word).bind fun _ =>
      rewind.bind fun _ => pure _

end StaysQuiet

end Parser

end TreeLang
