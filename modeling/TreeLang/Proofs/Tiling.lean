import TreeLang.Proofs.Travelling

/-!
# Tokens tile their text

A stream that is read to its end under one mode accounts for every character of the text, once: the
tokens are in order and no two of them overlap, and what lies between two of them is made of blanks,
comments and continued lines.  So nothing is skipped, nothing is read twice, and no operator that
somebody may have registered keeps the stream from going on.

* `Place.Spans` — the characters from one place to another.
* **`Trivia`** — characters that belong to no token.
* `Token.Faithful` — a word without escapes has the characters it covers for its content.
* `TokenStream.drain` — the tokens of a stream, taken one by one.
* `Token.Apart` — tokens with trivia in front of each of them.
* **`drain_tiles`** — every text is tiled by its tokens.
-/

namespace TreeLang

variable {operators : OperatorRegistry} {policy : EscapePolicy} {skipBreaks first : Bool}
  {mode : Mode} {p q r : Place} {text piece more : List Char}

/-! ## Pieces of a text -/

/-- What lies ahead of a place is what the text has from its offset on. -/
lemma Place.Reaches.rest_eq (reaches : (Place.start text).Reaches p) :
    p.rest = text.drop p.offset := by
  obtain ⟨count, rfl⟩ := reaches
  rw [Place.rest_skip, Place.offset_skip]
  rcases Nat.le_total count text.length with le | le
  · simp [Place.start, Nat.min_eq_left le]
  · simp [Place.start, Nat.min_eq_right le, List.drop_eq_nil_of_le le]

/-- The characters from one place to another. -/
structure Place.Spans (p : Place) (piece : List Char) (q : Place) : Prop where
  rest : p.rest = piece ++ q.rest
  place : q = p.skip piece.length

namespace Place.Spans

lemma refl (p : Place) : p.Spans [] p := ⟨rfl, rfl⟩

lemma trans (front : p.Spans piece q) (back : q.Spans more r) : p.Spans (piece ++ more) r where
  rest := by rw [front.rest, back.rest, List.append_assoc]
  place := by rw [back.place, front.place, List.length_append, Place.skip_add]

/-- The characters that are skipped. -/
lemma skip {count : Nat} (isPrefix : piece <+: p.rest) (length : piece.length = count) :
    p.Spans piece (p.skip count) where
  rest := by
    obtain ⟨rest, hrest⟩ := isPrefix
    rw [Place.rest_skip, ← hrest, ← length, List.drop_left]
  place := by rw [length]

lemma next {c : Char} {rest : List Char} (hrest : p.rest = c :: rest) : p.Spans [c] p.next :=
  show p.Spans [c] (p.skip 1) from skip ⟨rest, hrest.symm⟩ rfl

lemma offset (spans : p.Spans piece q) : q.offset = p.offset + piece.length := by
  rw [spans.place, Place.offset_skip, spans.rest, List.length_append]
  omega

/-- A piece of a text is found in the text between the offsets of its ends. -/
lemma eq_extract (reaches : (Place.start text).Reaches p) (spans : p.Spans piece q) :
    piece = text.extract p.offset q.offset := by
  rw [List.extract_eq_take_drop, ← reaches.rest_eq, spans.rest, spans.offset,
    Nat.add_sub_cancel_left, List.take_left]

end Place.Spans

/-- Skipping goes no further than the text. -/
lemma Place.skip_of_le {count : Nat} (le : p.rest.length ≤ count) :
    p.skip count = p.skip p.rest.length := by
  induction count generalizing p with
  | zero => rw [Nat.le_zero.mp le]
  | succ count ih =>
    cases hrest : p.rest with
    | nil =>
      have stays : p.next = p := by rw [Place.next, hrest]
      rw [Place.skip, stays, ih (by simp [hrest]), hrest]
    | cons c rest =>
      have shorter : p.next.rest.length = rest.length := by simp [hrest]
      rw [hrest, List.length_cons] at le
      rw [Place.skip, ih (by omega), shorter]
      rfl

/-- Whatever is reached is reached by the characters in between. -/
lemma Place.Reaches.spans (reaches : p.Reaches q) : ∃ piece, p.Spans piece q := by
  obtain ⟨count, rfl⟩ := reaches
  rcases Nat.le_total count p.rest.length with le | le
  · exact ⟨_, .skip (List.take_prefix count p.rest) (List.length_take_of_le le)⟩
  · rw [Place.skip_of_le le]
    exact ⟨p.rest, .skip (List.prefix_refl _) rfl⟩

/-! ## Between tokens -/

/-- **Characters that belong to no token**, in front of what follows them.  A line comment goes on to
the end of its line, and a block comment to where it is closed first. -/
inductive Trivia (skipBreaks : Bool) (following : List Char) : List Char → Prop
  | nil : Trivia skipBreaks following []
  | blank {c : Char} {gap : List Char} (blank : Text.isBlank c = true)
      (breaks : c = '\n' → skipBreaks = true) (rest : Trivia skipBreaks following gap) :
      Trivia skipBreaks following (c :: gap)
  | continued {gap : List Char} (rest : Trivia skipBreaks following gap) :
      Trivia skipBreaks following ('\\' :: '\n' :: gap)
  | lineComment {comment gap : List Char} (oneLine : '\n' ∉ comment)
      (ends : ∀ c ∈ (gap ++ following).head?, c = '\n') (rest : Trivia skipBreaks following gap) :
      Trivia skipBreaks following ('/' :: '/' :: (comment ++ gap))
  | blockComment {comment gap : List Char} (closed : ¬ ['*', '/'] <:+: comment)
      (rest : Trivia skipBreaks following gap) :
      Trivia skipBreaks following ('/' :: '*' :: (comment ++ '*' :: '/' :: gap))

/-- A block comment ends where it is closed for the first time. -/
lemma commentLength?_eq_some {cs : List Char} {length : Nat}
    (found : commentLength? cs = some length) :
    ∃ comment, comment ++ ['*', '/'] <+: cs ∧ length = comment.length + 2 ∧
      ¬ ['*', '/'] <:+: comment := by
  induction cs generalizing length with
  | nil => cases found
  | cons c rest ih =>
    rw [commentLength?] at found
    split at found
    · rename_i closes
      obtain ⟨rfl, head⟩ := closes
      obtain ⟨tail, rfl⟩ := List.head?_eq_some_iff.mp head
      cases found
      exact ⟨[], ⟨tail, rfl⟩, rfl, by simp⟩
    · rename_i open_
      obtain ⟨inner, foundInner, rfl⟩ := Option.map_eq_some_iff.mp found
      obtain ⟨comment, ⟨tail, rfl⟩, rfl, closed⟩ := ih foundInner
      refine ⟨c :: comment, ⟨tail, rfl⟩, rfl, fun infixed => ?_⟩
      rcases List.infix_cons_iff.mp infixed with ⟨more, here⟩ | later
      · -- The two characters that close would stand right here.
        simp only [List.cons_append, List.nil_append, List.cons.injEq] at here
        obtain ⟨rfl, rfl⟩ := here
        exact open_ (by simp)
      · exact closed later

/-- **In front of a token stands trivia.** -/
lemma spans_begin (skipBreaks : Bool) (p : Place) : ∃ gap,
    p.Spans gap (p.begin skipBreaks) ∧ Trivia skipBreaks (p.begin skipBreaks).rest gap := by
  rw [Place.begin]
  fun_induction skipTrivia skipBreaks p with
  | case1 | case2 | case7 | case8 => exact ⟨[], .refl _, .nil⟩
  | case3 p c rest hrest newline blank ih =>
    obtain ⟨gap, spans, trivia⟩ := ih
    refine ⟨c :: gap, (Place.Spans.next hrest).trans spans, .blank blank (fun hc => ?_) trivia⟩
    simpa [hc] using newline
  | case4 p c rest hrest newline blank joined ih =>
    obtain ⟨gap, spans, trivia⟩ := ih
    obtain ⟨rfl, head⟩ := joined
    obtain ⟨tail, rfl⟩ := List.head?_eq_some_iff.mp head
    have front : p.Spans ['\\', '\n'] (p.skip 2) := .skip ⟨tail, hrest.symm⟩ rfl
    exact ⟨'\\' :: '\n' :: gap, front.trans spans, .continued trivia⟩
  | case5 p c rest hrest newline blank joined line ih =>
    obtain ⟨gap, spans, trivia⟩ := ih
    obtain ⟨rfl, head⟩ := line
    obtain ⟨tail, rfl⟩ := List.head?_eq_some_iff.mp head
    simp only [List.tail_cons] at spans trivia ⊢
    set comment := tail.takeWhile (· ≠ '\n') with hcomment
    have front : p.Spans ('/' :: '/' :: comment) (p.skip (2 + comment.length)) := by
      refine .skip ?_ (by simp only [List.length_cons]; omega)
      rw [hrest, List.prefix_cons_inj, List.prefix_cons_inj]
      exact List.takeWhile_prefix _
    refine ⟨'/' :: '/' :: (comment ++ gap), front.trans spans, .lineComment ?_ ?_ trivia⟩
    · intro member
      simpa using List.mem_takeWhile_imp member
    · -- What follows the comment is what its line has left: a line break, or nothing.
      have left : comment ++ (p.skip (2 + comment.length)).rest = tail := by
        simpa [hrest] using front.rest.symm
      have parts := left.trans
        (List.takeWhile_append_dropWhile (p := (· ≠ '\n')) (l := tail)).symm
      rw [← spans.rest, List.append_cancel_left parts]
      intro c member
      have stops := List.head?_dropWhile_not (· ≠ '\n') tail
      rw [Option.mem_def.mp member] at stops
      simpa using stops
  | case6 p c rest hrest newline blank joined line block length closes ih =>
    obtain ⟨gap, spans, trivia⟩ := ih
    obtain ⟨rfl, head⟩ := block
    obtain ⟨tail, rfl⟩ := List.head?_eq_some_iff.mp head
    obtain ⟨comment, ⟨after, hafter⟩, rfl, closed⟩ := commentLength?_eq_some closes
    have front : p.Spans ('/' :: '*' :: (comment ++ ['*', '/']))
        (p.skip (2 + (comment.length + 2))) := by
      refine .skip ?_ (by simp only [List.length_cons, List.length_append, List.length_nil]; omega)
      rw [hrest, List.prefix_cons_inj, List.prefix_cons_inj]
      exact ⟨after, hafter⟩
    have all := front.trans spans
    simp only [List.cons_append, List.append_assoc, List.nil_append] at all
    exact ⟨_, all, .blockComment closed trivia⟩

/-! ## Words -/

/-- What is kept in front of a scan belongs to the piece that the scan covers. -/
lemma LiteralScan.spans_keep {scan : LiteralScan} {front content : List Char}
    (spans : p.Spans piece q) (kept : (scan.keep front q).content = some (content, r))
    (plain : '\\' ∉ piece → front = piece)
    (covered : ∀ content, scan.content = some (content, r) →
      ∃ more, q.Spans more r ∧ ('\\' ∉ more → content = more)) :
    ∃ whole, p.Spans whole r ∧ ('\\' ∉ whole → content = whole) := by
  cases hcontent : scan.content with
  | none =>
    simp only [keep, hcontent, Option.some.injEq, Prod.mk.injEq] at kept
    obtain ⟨rfl, rfl⟩ := kept
    exact ⟨piece, spans, plain⟩
  | some inner =>
    obtain ⟨content', place⟩ := inner
    simp only [keep, hcontent, Option.some.injEq, Prod.mk.injEq] at kept
    obtain ⟨rfl, rfl⟩ := kept
    obtain ⟨more, beyond, same⟩ := covered content' hcontent
    refine ⟨piece ++ more, spans.trans beyond, fun unescaped => ?_⟩
    rw [List.mem_append, not_or] at unescaped
    rw [plain unescaped.1, same unescaped.2]

/-- **A literal without escapes is the piece of the text that it covers.** -/
lemma spans_literalFrom {content : List Char}
    (found : (literalFrom operators policy mode first p).content = some (content, q)) :
    ∃ piece, p.Spans piece q ∧ ('\\' ∉ piece → content = piece) := by
  fun_induction literalFrom operators policy mode first p generalizing content with
  | case1 | case5 | case6 | case8 | case9 => cases found
  | case2 first p hrest =>
    refine LiteralScan.spans_keep (.next hrest) found (fun _ => rfl) ?_
    intro _ none
    cases none
  | case3 first p =>
    rename_i following _ hrest ih
    obtain ⟨piece, spans, -⟩ := ih found
    have front : p.Spans ['\\', '\n'] (p.skip 2) := .skip ⟨following, hrest.symm⟩ rfl
    exact ⟨_, front.trans spans, fun unescaped => by simp at unescaped⟩
  | case4 first p =>
    rename_i letter following newline escape width after scan _ hrest ih
    obtain ⟨front, spans⟩ := ((Place.Reaches.refl p).skip escape.width).spans
    refine LiteralScan.spans_keep spans found (fun unescaped => ?_) fun _ h => ih h
    -- The piece begins with the backslash of the escape.
    have parts := spans.rest
    rw [Place.rest_skip, hrest] at parts
    cases front with
    | nil =>
      have same := congrArg List.length parts
      have wide : 2 ≤ escape.width := width
      simp only [List.nil_append, List.length_drop, List.length_cons] at same
      omega
    | cons c front =>
      obtain rfl : '\\' = c := (List.cons.inj parts).1
      simp at unescaped
  | case7 first p c rest =>
    rename_i hrest _ _ _ _ ih
    obtain ⟨⟨inner, place⟩, beyond, same⟩ := Option.map_eq_some_iff.mp found
    obtain ⟨rfl, rfl⟩ := Prod.mk.inj same
    obtain ⟨piece, spans, plain⟩ := ih beyond
    refine ⟨c :: piece, (Place.Spans.next hrest).trans spans, fun unescaped => ?_⟩
    rw [List.mem_cons, not_or] at unescaped
    rw [plain unescaped.2]
  | case10 first p c rest =>
    rename_i hrest _ _ _ _ _ ih
    exact LiteralScan.spans_keep (.next hrest) found (fun _ => rfl) fun _ h => ih h

/-- **A word has the characters that it covers for its content**: a literal unless it holds a
backslash, and an operator always. -/
structure Token.Faithful (text : List Char) (token : Token) : Prop where
  literal : token.kind = .literal → '\\' ∉ text.extract token.start token.stop →
    token.content.toList = text.extract token.start token.stop
  operator : token.kind = .operator ∨ token.kind = .keyword →
    token.content.toList = text.extract token.start token.stop

namespace Token.Faithful

/-- Nothing is said of other tokens. -/
lemma of_other {token : Token} (other : token.kind ≠ .literal)
    (noOperator : ¬ (token.kind = .operator ∨ token.kind = .keyword)) : token.Faithful text :=
  ⟨fun literal => absurd literal other, fun operator => absurd operator noOperator⟩

/-- The literal that begins at a place. -/
lemma lexLiteral (reaches : (Place.start text).Reaches p) :
    (lexLiteral operators policy mode p).token.Faithful text := by
  rw [TreeLang.lexLiteral]
  cases hcontent : (literalFrom operators policy mode true p).content with
  | none => exact ⟨fun _ _ => by simp, fun operator => by simp at operator⟩
  | some found =>
    obtain ⟨content, after⟩ := found
    obtain ⟨piece, spans, plain⟩ := spans_literalFrom hcontent
    refine ⟨fun _ unescaped => ?_, fun operator => by simp at operator⟩
    simp only [Option.getD_some, ← spans.eq_extract reaches] at unescaped ⊢
    rw [plain unescaped, String.toList_ofList]

/-- The operator that begins at a place. -/
lemma lexOperator? {lexeme : Lexeme} (reaches : (Place.start text).Reaches p)
    (found : lexOperator? operators p = some lexeme) : lexeme.token.Faithful text := by
  obtain ⟨name, -, isPrefix, kind, rfl, -⟩ := lexOperator?_eq_some found
  have ends : lexeme.token.start = p.offset ∧
      lexeme.token.stop = (p.skip lexeme.token.content.length).offset := by
    rw [TreeLang.lexOperator?] at found
    rcases Option.or_eq_some_iff.mp found with h | ⟨-, h⟩ <;>
    · obtain ⟨_, -, rfl⟩ := Option.map_eq_some_iff.mp h
      exact ⟨rfl, rfl⟩
  have spans : p.Spans lexeme.token.content.toList (p.skip lexeme.token.content.length) :=
    .skip isPrefix String.length_toList
  refine ⟨fun literal => ?_, fun _ => ?_⟩
  · rcases kind with kind | kind <;> simp [kind] at literal
  · rw [ends.1, ends.2, spans.eq_extract reaches]

/-- **The token that begins at a place.** -/
lemma lexHere (reaches : (Place.start text).Reaches p) :
    (lexHere operators policy mode p).token.Faithful text := by
  rw [TreeLang.lexHere]
  split
  · exact of_other (by simp) (by simp)
  split
  · rename_i kind delimits
    have other := (delimiter?_ne delimits).2
    refine of_other ?_ ?_
    · rintro rfl
      cases other
    · rintro (rfl | rfl) <;> cases other
  split
  · exact of_other (by simp [lexQuoted]) (by simp [lexQuoted])
  dsimp only
  split
  · cases found : TreeLang.lexOperator? operators p with
    | none => exact lexLiteral reaches
    | some lexeme => exact lexOperator? reaches found
  · exact lexLiteral reaches

end Token.Faithful

/-! ## A text token by token -/

/-- **The tokens of a stream**, taken one by one with a commitment after each of them, up to the end
of the text; nothing if the steps do not lead there. -/
def TokenStream.drain (operators : OperatorRegistry) (skipBreaks : Bool) (mode : Mode) :
    Nat → TokenStream → Option (List Token)
  | 0, _ => none
  | steps + 1, stream =>
    let (token, stream) := stream.next operators skipBreaks mode
    if token.kind = .endOfInput then some [token]
    else (drain operators skipBreaks mode steps stream.commit).map (token :: ·)

/-- **Tokens with trivia in front of each of them**, from an offset on. -/
def Token.Apart (text : List Char) (skipBreaks : Bool) : Nat → List Token → Prop
  | _, [] => True
  | offset, token :: rest =>
    offset ≤ token.start ∧
      Trivia skipBreaks (text.drop token.start) (text.extract offset token.start) ∧
      Token.Apart text skipBreaks token.stop rest

/-- **A token of a text** that is not its end. -/
structure Token.Lies (text : List Char) (token : Token) : Prop where
  more : token.kind ≠ .endOfInput
  start_lt_stop : token.start < token.stop
  stop_le : token.stop ≤ text.length
  faithful : token.Faithful text

/-- The end of a text. -/
structure Token.Ends (text : List Char) (token : Token) : Prop where
  kind : token.kind = .endOfInput
  start : token.start = text.length
  stop : token.stop = text.length

/-- **One token**: it lies in the text or is its end, with trivia in front. -/
lemma lex_tiles (operators : OperatorRegistry) (policy : EscapePolicy) (skipBreaks : Bool)
    (mode : Mode) (reaches : (Place.start text).Reaches p) :
    let lexeme := lex operators policy skipBreaks mode p
    p.offset ≤ lexeme.token.start ∧
      Trivia skipBreaks (text.drop lexeme.token.start) (text.extract p.offset lexeme.token.start) ∧
      lexeme.token.stop = lexeme.after.offset ∧
      (lexeme.token.Lies text ∨ lexeme.token.Ends text) := by
  intro lexeme
  have begins := reaches.trans (reaches_begin skipBreaks p)
  obtain ⟨start, stop, further⟩ : lexeme.Covers (p.begin skipBreaks) := covers_lex ..
  obtain ⟨gap, spans, trivia⟩ := spans_begin skipBreaks p
  rw [begins.rest_eq] at trivia
  rw [start, ← spans.eq_extract reaches]
  refine ⟨(reaches_begin skipBreaks p).offset_le, trivia, stop, ?_⟩
  have total : lexeme.after.offset + lexeme.after.rest.length = text.length := by
    simpa [Place.start] using (begins.trans further).total
  have totalBegin := further.total
  cases skips : skipTrivia skipBreaks p with
  | openComment q =>
    have begin_ : p.begin skipBreaks = q := by rw [Place.begin, skips]; rfl
    have token : lexeme.token.kind = .openComment ∧ lexeme.after = q.skip q.rest.length := by
      simp [lexeme, lex, skips]
    have nonempty := (skipTrivia_openComment skips).1
    have last : lexeme.after.rest.length = 0 := by simp [token.2]
    rw [begin_] at totalBegin start
    exact .inl ⟨by simp [token.1], by omega, by omega, .of_other (by simp [token.1])
      (by simp [token.1])⟩
  | token q =>
    have begin_ : p.begin skipBreaks = q := by rw [Place.begin, skips]; rfl
    have token : lexeme = lexHere operators policy mode q := by simp [lexeme, lex, skips]
    rw [begin_] at totalBegin start begins
    by_cases empty : q.rest = []
    · have kind : lexeme.token.kind = .endOfInput := by simp [token, lexHere, empty]
      have after : lexeme.after = q := by simp [token, lexHere, empty]
      rw [after, empty] at total
      rw [after] at stop
      exact .inr ⟨kind, by simpa [start] using total, by simpa [stop] using total⟩
    · have shorter : lexeme.after.rest.length < q.rest.length := by
        rw [token]
        exact lexHere_shortens (stands_of_skipTrivia skips) empty
      refine .inl ⟨fun ends => ?_, by omega, by omega, token ▸ .lexHere begins⟩
      -- Only where nothing is left the text ends.
      rcases kind_lexHere_cases operators policy mode q with ⟨none, -⟩ | ⟨c, -, kind⟩
      · exact empty none
      · rw [← token, ends] at kind
        rcases kind with kind | ⟨-, kind⟩
        · exact (delimiter?_ne kind).1 rfl
        · cases kind

/-- A stream that looks no further than its last commitment. -/
structure TokenStream.Fresh (stream : TokenStream) : Prop where
  handed : stream.handed = []
  ahead : stream.ahead = []

/-- **One step of a stream**: it hands out the token at its place and goes on behind it. -/
lemma TokenStream.Fresh.next {stream : TokenStream} (fresh : stream.Fresh)
    (operators : OperatorRegistry) (skipBreaks : Bool) (mode : Mode) :
    let lexeme := lex operators stream.policy skipBreaks mode stream.anchor
    let (token, stream') := stream.next operators skipBreaks mode
    token = lexeme.token ∧ stream'.commit.Fresh ∧ stream'.commit.anchor = lexeme.after ∧
      stream'.commit.policy = stream.policy := by
  have place : stream.place = stream.anchor := by rw [TokenStream.place, fresh.handed]
  simp only [TokenStream.next, fresh.ahead, read, place]
  -- What was wrong with the token is kept beside the tokens.
  have absorbed (reports : List Report) (stream : TokenStream) :
      (reports.foldl report stream).place = stream.place ∧
        (reports.foldl report stream).ahead = stream.ahead ∧
        (reports.foldl report stream).policy = stream.policy := by
    rw [show reports.foldl report stream = stream.absorb reports from rfl, absorb_eq]
    exact ⟨rfl, rfl, rfl⟩
  exact ⟨trivial, ⟨rfl, (absorbed _ _).2.1⟩, (absorbed _ _).1, (absorbed _ _).2.2⟩

/-- **A stream that is drained** tiles what it has not handed out. -/
lemma TokenStream.Fresh.drain {stream : TokenStream} (fresh : stream.Fresh)
    (operators : OperatorRegistry) (skipBreaks : Bool) (mode : Mode) {steps : Nat}
    (reaches : (Place.start text).Reaches stream.anchor)
    (enough : stream.anchor.rest.length < steps) :
    ∃ tokens last, stream.drain operators skipBreaks mode steps = some (tokens ++ [last]) ∧
      last.Ends text ∧ (∀ token ∈ tokens, token.Lies text) ∧
      Token.Apart text skipBreaks stream.anchor.offset (tokens ++ [last]) := by
  induction steps generalizing stream with
  | zero => omega
  | succ steps ih =>
    have step := fresh.next operators skipBreaks mode
    have tiles := lex_tiles operators stream.policy skipBreaks mode reaches
    rw [TokenStream.drain]
    generalize stream.next operators skipBreaks mode = handed at step ⊢
    obtain ⟨token, stream'⟩ := handed
    obtain ⟨rfl, fresh', anchor, policy⟩ := step
    obtain ⟨front, trivia, stop, lies | ends⟩ := tiles
    · have further : (Place.start text).Reaches stream'.commit.anchor := by
        rw [anchor]
        exact reaches.trans (reaches_lex ..)
      have shorter := lex_shortens lies.more
      rw [← anchor] at shorter
      obtain ⟨tokens, last, drained, ends, lie, apart⟩ := ih fresh' further (by omega)
      refine ⟨_ :: tokens, last, by simp [lies.more, drained], ends, ?_, front, trivia, ?_⟩
      · exact List.forall_mem_cons.mpr ⟨lies, lie⟩
      · rwa [stop, ← anchor]
    · exact ⟨[], _, by simp [ends.kind], ends, by simp, front, trivia, trivial⟩

/-- Tokens that stand apart are in order. -/
lemma Token.Apart.le {offset : Nat} {tokens : List Token}
    (apart : Token.Apart text skipBreaks offset tokens)
    (forward : ∀ token ∈ tokens, token.start ≤ token.stop) : ∀ token ∈ tokens, offset ≤ token.start := by
  induction tokens generalizing offset with
  | nil => simp
  | cons token rest ih =>
    obtain ⟨front, -, apart⟩ := apart
    obtain ⟨le, forward⟩ := List.forall_mem_cons.mp forward
    refine List.forall_mem_cons.mpr ⟨front, fun other member => ?_⟩
    have beyond := ih apart forward other member
    omega

lemma Token.Apart.pairwise {offset : Nat} {tokens : List Token}
    (apart : Token.Apart text skipBreaks offset tokens)
    (forward : ∀ token ∈ tokens, token.start ≤ token.stop) :
    tokens.Pairwise fun token later => token.stop ≤ later.start := by
  induction tokens generalizing offset with
  | nil => exact .nil
  | cons token rest ih =>
    have forwardRest := (List.forall_mem_cons.mp forward).2
    exact .cons (apart.2.2.le forwardRest) (ih apart.2.2 forwardRest)

/-- **A text is tiled by its tokens**, under every mode, whatever operators are registered: taking
tokens off a stream comes to the end of the text, which is one token of its own and the last one.
Every other token takes some characters of the text, they are in order and do not overlap, and what
lies in front of each of them is trivia.  A word without escapes is what stands in the text. -/
theorem drain_tiles (operators : OperatorRegistry) (policy : EscapePolicy) (skipBreaks : Bool)
    (mode : Mode) (text : List Char) :
    ∃ tokens last, (TokenStream.start policy text).drain operators skipBreaks mode (text.length + 1)
        = some (tokens ++ [last]) ∧
      (last.kind = .endOfInput ∧ last.start = text.length ∧ last.stop = text.length) ∧
      (∀ token ∈ tokens, token.kind ≠ .endOfInput ∧ token.start < token.stop ∧
        token.stop ≤ text.length ∧ token.Faithful text) ∧
      ((tokens ++ [last]).Pairwise fun token later => token.stop ≤ later.start) ∧
      Token.Apart text skipBreaks 0 (tokens ++ [last]) := by
  have fresh : (TokenStream.start policy text).Fresh := ⟨rfl, rfl⟩
  obtain ⟨tokens, last, drained, ends, lie, apart⟩ :=
    fresh.drain operators skipBreaks mode (.refl _) (Nat.lt_succ_self text.length)
  refine ⟨tokens, last, drained, ⟨ends.kind, ends.start, ends.stop⟩, fun token member => ?_, ?_,
    apart⟩
  · have lies := lie token member
    exact ⟨lies.more, lies.start_lt_stop, lies.stop_le, lies.faithful⟩
  · refine apart.pairwise fun token member => ?_
    rcases List.mem_append.mp member with inner | last_
    · exact Nat.le_of_lt (lie token inner).start_lt_stop
    · rw [List.mem_singleton.mp last_, ends.start, ends.stop]

end TreeLang
