import TreeLang.Proofs.Complaining

/-!
# Skipping groups whole

After a mistake the parser skips to where it can go on, and a group that is opened on the way must be
skipped with all that is in it, or a separator of the group would be taken for the end of what is
skipped.  While it skips a group the parser also looks out for the closers that the groups around the
mistake wait for.  Those may well be met in the text that is skipped, as the closers of groups that are
nested in it.  This file says that none of them stops it.

* `Lexis.Words` — the words that stand between two places, line breaks among them.
* **`Nested`** — texts, colons and whole groups; separators only inside of groups.
* `Skips` — what skipping changes: the tokens, and nothing else while nobody listens.
* `PassesInGroup` — such words inside of a group are passed, by induction on how they are nested.
* **`recover_nested`** — recovering takes such words, and the separator behind them if there is one.
-/

namespace TreeLang

variable {s t u : ParserState} {p q r : Place} {kind opener closer : TokenKind}
  {kinds inside : List TokenKind}

/-! ## Words -/

namespace Lexis

variable {lexis : Lexis}

/-- **The words between two places**, by their kinds.  A line break is a word like the others. -/
def Words (lexis : Lexis) : Place → List TokenKind → Place → Prop
  | p, [], q => p = q
  | p, kind :: kinds, q => (lexis.read false .word p).token.kind = kind ∧
      lexis.Words (lexis.read false .word p).after kinds q

instance decidableWords (lexis : Lexis) :
    (p : Place) → (kinds : List TokenKind) → (q : Place) → Decidable (lexis.Words p kinds q)
  | p, [], q => inferInstanceAs (Decidable (p = q))
  | p, kind :: kinds, q =>
    have := decidableWords lexis (lexis.read false .word p).after kinds q
    inferInstanceAs (Decidable ((lexis.read false .word p).token.kind = kind ∧ _))

/-- Behind a comma or a line break that stands at a place, and where there is none the place. -/
def pastSeparator (lexis : Lexis) (p : Place) : Place :=
  if (lexis.read false .word p).token.kind = .comma ∨
      (lexis.read false .word p).token.kind = .lineBreak then
    (lexis.read false .word p).after
  else p

lemma words_append {first second : List TokenKind} :
    lexis.Words p (first ++ second) r ↔ ∃ q, lexis.Words p first q ∧ lexis.Words q second r := by
  induction first generalizing p with
  | nil => simp [Words]
  | cons kind first ih => simp [Words, ih, and_assoc]

lemma Words.le (words : lexis.Words p kinds q) : q.rest.length ≤ p.rest.length := by
  induction kinds generalizing p with
  | nil =>
    obtain rfl : p = q := words
    exact Nat.le_refl _
  | cons kind kinds ih => exact Nat.le_trans (ih words.2) (lex_le _ _ _ _ p)

/-- Inside of groups line breaks are passed. -/
lemma read_true_after (breaks : (lexis.read false .word p).token.kind = .lineBreak) :
    lexis.read true .word (lexis.read false .word p).after = lexis.read true .word p := by
  have same : skipTrivia true (lexis.read false .word p).after = skipTrivia true p :=
    skipTrivia_after_lineBreak breaks
  conv_lhs => rw [read, lex, same]
  rfl

/-- Nothing is wrong with a delimiter, nor with the end of a text. -/
lemma reports_of_delimiter {skipBreaks : Bool}
    (text : (lexis.read skipBreaks .word p).token.kind.isText = false)
    (closed : (lexis.read skipBreaks .word p).token.kind ≠ .openComment) :
    (lexis.read skipBreaks .word p).reports = [] := by
  revert text closed
  simp only [read, lex]
  cases skipTrivia skipBreaks p with
  | openComment p => exact fun _ closed => absurd rfl closed
  | token p =>
    dsimp only
    intro text _
    rw [kind_lexHere (by decide)] at text
    rw [lexHere]
    cases head : p.rest.head? with
    | none => rfl
    | some c =>
      cases delimiter : delimiter? .word c with
      | some kind => simp [delimiter]
      | none =>
        simp only [head, Option.map_some, Option.getD_some, kindOf, delimiter, Option.getD_none] at text
        split at text <;> cases text

end Lexis

/-! ## Nested words -/

/-- **Words in which every bracket belongs to a group.**  Commas and line breaks stand inside of groups
only, so at the outside there are none unless all of the words stand in a group themselves. -/
inductive Nested : Bool → List TokenKind → Prop
  | nil {grouped : Bool} : Nested grouped []
  | word {grouped : Bool} {kind : TokenKind} (h : kind.isText = true ∨ kind = .colon) :
    Nested grouped [kind]
  | separator {kind : TokenKind} (h : kind = .comma ∨ kind = .lineBreak) : Nested true [kind]
  | append {grouped : Bool} {first second : List TokenKind} :
    Nested grouped first → Nested grouped second → Nested grouped (first ++ second)
  | group {grouped : Bool} {opener closer : TokenKind} {inside : List TokenKind}
    (pair : opener.closer? = some closer) :
    Nested true inside → Nested grouped (opener :: (inside ++ [closer]))

namespace TokenKind

lemma isCloser_of_closer? (pair : opener.closer? = some closer) : closer.isCloser = true := by
  cases opener <;> cases pair <;> rfl

lemma isOpener_of_closer? (pair : opener.closer? = some closer) : opener.isOpener = true := by
  rw [← closer?_isSome, pair]
  rfl

/-- A word that ends nothing and separates nothing. -/
structure IsInner (kind : TokenKind) : Prop where
  more : kind ≠ .endOfInput
  other : kind.isCloser = false
  comma : kind ≠ .comma
  breaks : kind ≠ .lineBreak

lemma isInner_of_isOpener (opens : kind.isOpener = true) : kind.IsInner := by
  cases kind <;> cases opens <;> exact ⟨by decide, rfl, by decide, by decide⟩

lemma isInner_of_word (h : kind.isText = true ∨ kind = .colon) :
    kind.IsInner ∧ kind.isOpener = false := by
  rcases h with text | rfl
  · cases kind <;> cases text <;> exact ⟨⟨by decide, rfl, by decide, by decide⟩, rfl⟩
  · exact ⟨⟨by decide, rfl, by decide, by decide⟩, rfl⟩

end TokenKind

namespace Parser

/-! ## What skipping changes -/

/-- **What skipping changes**: the tokens, and the reports if somebody listens.  What was wrong with the
tokens that are skipped does not wait to be reported later. -/
structure Skips (s t : ParserState) : Prop where
  same : t = { s with tokens := t.tokens, reports := t.reports }
  policy : t.tokens.policy = s.tokens.policy
  quiet : s.recovering = true → t.reports = s.reports
  waiting : t.tokens.reports ⊆ s.tokens.reports

namespace Skips

lemma refl (s : ParserState) : Skips s s :=
  ⟨rfl, rfl, fun _ => rfl, List.Subset.refl _⟩

lemma awaited (skips : Skips s t) : t.awaited = s.awaited := by
  rw [skips.same]

lemma visible (skips : Skips s t) : t.visible = s.visible := by
  rw [skips.same]

lemma recovering (skips : Skips s t) : t.recovering = s.recovering := by
  rw [skips.same]

lemma trans (first : Skips s t) (second : Skips t u) : Skips s u where
  same := second.same.trans <|
    congrArg (fun t : ParserState => { t with tokens := u.tokens, reports := u.reports }) first.same
  policy := second.policy.trans first.policy
  quiet := fun recovering =>
    (second.quiet (first.recovering.trans recovering)).trans (first.quiet recovering)
  waiting := fun _ member => first.waiting (second.waiting member)

lemma lexis (skips : Skips s t) : t.lexis = s.lexis := by
  simp only [ParserState.lexis, skips.visible, skips.policy]

end Skips

/-- Looking at a token with which nothing is wrong. -/
lemma ends_peek_delimiter (settled : s.Settled) (skipBreaks : Bool)
    (none : (s.reads skipBreaks .word).reports = []) :
    Ends (peek skipBreaks .word) s fun token t =>
      token = (s.reads skipBreaks .word).token ∧ Skips s t ∧ t.here = s.here := by
  obtain ⟨t, look, looked, base⟩ := runs_peek s.base skipBreaks .word s settled rfl
  have base : t.base = s.base := base.trans (by
    rw [show (s.base.lexeme skipBreaks .word).reports = [] from none, ParserState.absorb_nil])
  refine ⟨_, t, look, looked, rfl, ⟨?_, ?_, ?_, ?_⟩, congrArg (·.tokens.anchor) base⟩
  · exact congrArg
      (fun u : ParserState => { u with tokens := t.tokens, reports := t.reports }) base
  · exact congrArg (·.tokens.policy) base
  · exact fun _ => congrArg (·.reports) base
  · rw [show t.tokens.reports = s.tokens.reports from congrArg (·.tokens.reports) base]
    exact List.Subset.refl _

/-- **Looking at a token and taking it.**  Whatever is wrong with it does not wait to be reported. -/
lemma ends_peek_skipToken (settled : s.Settled) (skipBreaks : Bool) :
    Ends (peek skipBreaks .word) s fun token t =>
      token = (s.reads skipBreaks .word).token ∧ t.awaited = s.awaited ∧
        Ends (skipToken skipBreaks .word) t fun _ u =>
          Skips s u ∧ u.here = (s.reads skipBreaks .word).after := by
  obtain ⟨t, look, looked, base⟩ := runs_peek s.base skipBreaks .word s settled rfl
  have skip : Runs (skipToken skipBreaks .word) t.base () _ :=
    (runs_advance t.base skipBreaks .word).bind (.pure () _)
  obtain ⟨u, taken, settled, moved⟩ := skip t looked rfl
  have same : t.base.lexeme skipBreaks .word = s.reads skipBreaks .word := by
    simp only [base, ParserState.lexeme, ParserState.absorb, TokenStream.policy_absorb,
      TokenStream.anchor_absorb]
    rfl
  rw [same] at moved
  -- Both states are known but for what was read ahead, which is part of the tokens.
  refine ⟨_, t, look, looked, rfl, congrArg (·.awaited) base, (), u, taken, settled,
    ⟨?_, ?_, ?_, ?_⟩, congrArg (·.tokens.anchor) moved⟩
  · have first := congrArg
      (fun v : ParserState => { v with tokens := u.tokens, reports := u.reports }) moved
    exact first.trans (congrArg
      (fun v : ParserState => { v with tokens := u.tokens, reports := u.reports }) base)
  · have policy : u.tokens.policy = (t.base.tokens.absorb _).policy :=
      congrArg (·.tokens.policy) moved
    have before : t.tokens.policy = (s.base.tokens.absorb _).policy :=
      congrArg (·.tokens.policy) base
    rw [policy, TokenStream.policy_absorb]
    exact before.trans (TokenStream.policy_absorb _ _)
  · intro recovering
    have listens : t.recovering = s.recovering := congrArg (·.recovering) base
    have reports := congrArg (·.reports) moved
    exact reports.trans (if_pos (listens.trans recovering)) |>.trans (congrArg (·.reports) base)
  · have none : u.tokens.reports = [] := congrArg (·.tokens.reports) moved
    rw [none]
    exact List.nil_subset _

/-! ## Groups -/

/-- **Skipping a group takes a word** that is its closer or no closer at all, whichever are awaited. -/
lemma ends_skipGroup_taken {fuel : Nat} {property : Unit → ParserState → Prop} (settled : s.Settled)
    (enough : s.here.rest.length < fuel) (more : (s.reads true .word).token.kind ≠ .endOfInput)
    (going : (s.reads true .word).token.kind = closer ∨
      (s.reads true .word).token.kind.isCloser = false)
    (next : ∀ t fuel, t.Settled → Skips s t → t.here = (s.reads true .word).after →
      t.here.rest.length < fuel →
      Ends (if some (s.reads true .word).token.kind = some closer then pure ()
        else if (s.reads true .word).token.kind.isOpener then
          skipGroup fuel (s.reads true .word).token.kind.closer? >>= fun _ => skipGroup fuel (some closer)
        else skipGroup fuel (some closer)) t property) :
    Ends (skipGroup fuel (some closer)) s property := by
  cases fuel with
  | zero => exact absurd enough (Nat.not_lt_zero _)
  | succ fuel =>
    have shorter := s.reads_shortens more
    rw [skipGroup]
    refine (ends_peek_skipToken settled true).bind fun token t _ looked => ?_
    obtain ⟨rfl, -, taken⟩ := looked
    rw [if_neg more]
    refine .closesAwaited ?_
    rw [if_neg (by rcases going with going | going <;> simp [going])]
    refine taken.bind fun _ u settled skipped => ?_
    exact next u fuel settled skipped.1 skipped.2 (by rw [skipped.2]; omega)

/-- What is no closer is not that of a group. -/
lemma ne_closer (other : kind.isCloser = false) (closes : closer.isCloser = true) :
    some kind ≠ some closer := by
  rintro ⟨⟩
  rw [closes] at other
  cases other

/-- **Words inside of a group are passed**: what skipping the group does in front of them it does behind
them.  Where line breaks are skipped it does not matter in front of which of them the parser stands. -/
def PassesInGroup (kinds : List TokenKind) : Prop :=
  ∀ {s : ParserState} {p q : Place} {closer : TokenKind} {fuel : Nat}
    {property : Unit → ParserState → Prop}, s.Settled → closer.isCloser →
    s.lexis.Words p kinds q → s.reads true .word = s.lexis.read true .word p →
    s.here.rest.length < fuel →
    (∀ t fuel, t.Settled → Skips s t → t.reads true .word = s.lexis.read true .word q →
      t.here.rest.length < fuel → Ends (skipGroup fuel (some closer)) t property) →
    Ends (skipGroup fuel (some closer)) s property

/-- So a group is skipped up to the end of its closer. -/
lemma ends_skipGroup_closed {fuel : Nat} (passes : PassesInGroup inside) (settled : s.Settled)
    (closes : closer.isCloser) (words : s.lexis.Words s.here (inside ++ [closer]) q)
    (enough : s.here.rest.length < fuel) :
    Ends (skipGroup fuel (some closer)) s fun _ t => Skips s t ∧ t.here = q := by
  obtain ⟨p, words, kind, after⟩ := Lexis.words_append.mp words
  refine passes settled closes words rfl enough fun t fuel settled skips stands enough => ?_
  have same : t.reads true .word = s.lexis.read false .word p :=
    stands.trans (Lexis.read_true (by rw [kind]; rintro rfl; cases closes))
  refine ends_skipGroup_taken settled enough (by rw [same, kind]; rintro rfl; cases closes)
    (.inl (by rw [same, kind])) fun u fuel settled further place _ => ?_
  rw [same, kind, if_pos rfl]
  exact .pure settled ⟨skips.trans further, by rw [place, same]; exact after⟩

/-- A word that neither opens nor closes a group is passed. -/
lemma passesInGroup_word (more : kind ≠ .endOfInput) (opener : kind.isOpener = false)
    (opens : kind.isCloser = false) : PassesInGroup [kind] := by
  intro s p q closer fuel property settled closes words stands enough next
  obtain ⟨same, rfl⟩ := words
  -- A line break is not even a word there: the parser stands behind it without a step.
  by_cases breaks : kind = .lineBreak
  · rw [← Lexis.read_true_after (same.trans breaks)] at stands
    exact next s fuel settled (.refl s) stands enough
  · have reads : s.reads true .word = s.lexis.read false .word p :=
      stands.trans (Lexis.read_true (by rwa [same]))
    refine ends_skipGroup_taken settled enough (by rwa [reads, same]) (.inr (by rwa [reads, same]))
      fun t fuel settled skips place enough => ?_
    rw [reads, same, if_neg (ne_closer opens closes), opener, if_neg Bool.false_ne_true]
    refine next t fuel settled skips ?_ enough
    rw [ParserState.reads, skips.lexis, place, reads]

/-- A group in it is passed, too. -/
lemma passesInGroup_group {matching : TokenKind} (pair : opener.closer? = some matching)
    (passes : PassesInGroup inside) : PassesInGroup (opener :: (inside ++ [matching])) := by
  intro s p q closer fuel property settled closes words stands enough next
  obtain ⟨kind, words⟩ := words
  have opens := TokenKind.isOpener_of_closer? pair
  have inner := TokenKind.isInner_of_isOpener opens
  have reads : s.reads true .word = s.lexis.read false .word p :=
    stands.trans (Lexis.read_true (by rw [kind]; exact inner.breaks))
  refine ends_skipGroup_taken settled enough (by rw [reads, kind]; exact inner.more)
    (.inr (by rw [reads, kind, inner.other])) fun t fuel settled skips place enough => ?_
  rw [reads, kind, if_neg (ne_closer inner.other closes), if_pos opens, pair]
  rw [reads] at place
  have words : t.lexis.Words t.here (inside ++ [matching]) q := by rwa [skips.lexis, place]
  refine (ends_skipGroup_closed passes settled (TokenKind.isCloser_of_closer? pair) words enough).bind
    fun _ u settled passed => ?_
  obtain ⟨further, rfl⟩ := passed
  have lexis := skips.lexis
  exact next u fuel settled (skips.trans further) (by rw [ParserState.reads, further.lexis, lexis])
    (Nat.lt_of_le_of_lt words.le enough)

/-- And so are such words one after the other. -/
lemma passesInGroup_append {first second : List TokenKind} (before : PassesInGroup first)
    (behind : PassesInGroup second) : PassesInGroup (first ++ second) := by
  intro s p r closer fuel property settled closes words stands enough next
  obtain ⟨q, words, rest⟩ := Lexis.words_append.mp words
  refine before settled closes words stands enough fun t fuel settled skips stands enough => ?_
  have lexis := skips.lexis
  refine behind settled closes (lexis ▸ rest) (lexis ▸ stands) enough
    fun u fuel settled further stands enough => ?_
  exact next u fuel settled (skips.trans further) (lexis ▸ stands) enough

/-- **Nested words inside of a group are passed.** -/
lemma passesInGroup_of_nested (nested : Nested true kinds) : PassesInGroup kinds := by
  -- On how the words are nested; the inside of a group stands in a group wherever the group does.
  generalize hgrouped : true = grouped at nested
  induction nested with
  | nil =>
    intro s p q closer fuel property settled closes words stands enough next
    obtain rfl : p = q := words
    exact next s fuel settled (.refl s) stands enough
  | word h =>
    obtain ⟨inner, opener⟩ := TokenKind.isInner_of_word h
    exact passesInGroup_word inner.more opener inner.other
  | separator h =>
    rcases h with rfl | rfl <;> exact passesInGroup_word (by decide) rfl rfl
  | append _ _ first second => exact passesInGroup_append (first hgrouped) (second hgrouped)
  | group pair _ inner => exact passesInGroup_group pair (inner rfl)

/-! ## Up to a separator -/

/-- Skipping to a separator may stop at closers and at the end of the text. -/
lemma Stopping.delimits {closer : Option TokenKind} (closes : ∀ kind ∈ closer, kind.isCloser)
    (stops : Stopping s closer kind) : kind = .endOfInput ∨ kind.isCloser = true := by
  rcases stops with ends | same | ⟨closes, -⟩
  · exact .inl ends
  · exact .inr (closes _ same.symm)
  · exact .inr closes

lemma not_stopping_of_inner {closer : Option TokenKind} (closes : ∀ kind ∈ closer, kind.isCloser)
    (inner : kind.IsInner) : ¬ Stopping s closer kind := fun stops => by
  rcases stops.delimits closes with ends | closed
  · exact inner.more ends
  · rw [inner.other] at closed
    cases closed

/-- **Skipping to a separator takes a word** at which it may not stop. -/
lemma ends_skipToSeparator_taken {fuel : Nat} {closer : Option TokenKind}
    {property : Unit → ParserState → Prop} (settled : s.Settled)
    (enough : s.here.rest.length < fuel)
    (going : ¬ Stopping s closer (s.reads false .word).token.kind)
    (next : ∀ t fuel, t.Settled → Skips s t → t.here = (s.reads false .word).after →
      t.here.rest.length < fuel →
      Ends (if (decide ((s.reads false .word).token.kind = .comma) ||
            decide ((s.reads false .word).token.kind = .lineBreak)) = true then pure ()
        else if (s.reads false .word).token.kind.isOpener then
          skipGroup fuel (s.reads false .word).token.kind.closer? >>= fun _ =>
            skipToSeparator fuel closer
        else skipToSeparator fuel closer) t property) :
    Ends (skipToSeparator fuel closer) s property := by
  cases fuel with
  | zero => exact absurd enough (Nat.not_lt_zero _)
  | succ fuel =>
    have more : (s.reads false .word).token.kind ≠ .endOfInput := fun ends => going (.inl ends)
    have shorter := s.reads_shortens more
    rw [skipToSeparator]
    refine (ends_peek_skipToken settled false).bind fun token t _ looked => ?_
    obtain ⟨rfl, awaited, taken⟩ := looked
    rw [if_neg more]
    refine .closesAwaited ?_
    rw [awaited, if_neg fun stops => going (.inr (by simpa using stops))]
    refine taken.bind fun _ u settled skipped => ?_
    exact next u fuel settled skipped.1 skipped.2 (by rw [skipped.2]; omega)

/-- Where the group or the text ends nothing is taken. -/
lemma ends_skipToSeparator_stopping {fuel : Nat} {closer : Option TokenKind} (settled : s.Settled)
    (enough : s.here.rest.length < fuel) (closes : ∀ kind ∈ closer, kind.isCloser)
    (stops : Stopping s closer (s.reads false .word).token.kind) :
    Ends (skipToSeparator fuel closer) s fun _ t => Skips s t ∧ t.here = s.here := by
  cases fuel with
  | zero => exact absurd enough (Nat.not_lt_zero _)
  | succ fuel =>
    have none : (s.reads false .word).reports = [] := by
      have delimits := stops.delimits closes
      refine Lexis.reports_of_delimiter ?_ ?_ <;>
        cases kind : (s.reads false .word).token.kind <;> simp_all [TokenKind.isText, TokenKind.isCloser]
    rw [skipToSeparator]
    refine (ends_peek_delimiter settled false none).bind fun token t settled looked => ?_
    obtain ⟨rfl, looked⟩ := looked
    by_cases ends : (s.reads false .word).token.kind = .endOfInput
    · rw [if_pos ends]
      exact .pure settled looked
    rw [if_neg ends]
    refine .closesAwaited ?_
    rw [looked.1.awaited, if_pos (by simpa [Stopping, ends] using stops)]
    exact .pure settled looked

/-- **Nested words are passed** up to a separator that stands outside of every group. -/
lemma ends_skipToSeparator_nested (nested : Nested false kinds) {fuel : Nat}
    {closer : Option TokenKind} {property : Unit → ParserState → Prop}
    (closes : ∀ kind ∈ closer, kind.isCloser) (settled : s.Settled)
    (words : s.lexis.Words s.here kinds q) (enough : s.here.rest.length < fuel)
    (next : ∀ t fuel, t.Settled → Skips s t → t.here = q → t.here.rest.length < fuel →
      Ends (skipToSeparator fuel closer) t property) :
    Ends (skipToSeparator fuel closer) s property := by
  generalize hgrouped : false = grouped at nested
  induction nested generalizing s q fuel with
  | nil => exact next s fuel settled (.refl s) words enough
  | @word _ kind h =>
    obtain ⟨same, rfl⟩ := words
    have same : (s.reads false .word).token.kind = kind := same
    obtain ⟨inner, opener⟩ := TokenKind.isInner_of_word h
    refine ends_skipToSeparator_taken settled enough (same ▸ not_stopping_of_inner closes inner)
      fun t fuel settled skips place enough => ?_
    rw [same, if_neg (by simp [inner.comma, inner.breaks]), opener, if_neg Bool.false_ne_true]
    exact next t fuel settled skips place enough
  | separator => cases hgrouped
  | append _ _ first second =>
    obtain ⟨p, before, behind⟩ := Lexis.words_append.mp words
    refine first settled before enough (fun t fuel settled skips place enough => ?_) hgrouped
    refine second settled (by rwa [skips.lexis, place]) enough
      (fun u fuel settled further => next u fuel settled (skips.trans further)) hgrouped
  | @group _ opener matching inside pair nested =>
    obtain ⟨same, words⟩ := words
    have same : (s.reads false .word).token.kind = opener := same
    have opens := TokenKind.isOpener_of_closer? pair
    have inner := TokenKind.isInner_of_isOpener opens
    refine ends_skipToSeparator_taken settled enough (same ▸ not_stopping_of_inner closes inner)
      fun t fuel settled skips place enough => ?_
    rw [same, if_neg (by simp [inner.comma, inner.breaks]), if_pos opens, pair]
    have words : t.lexis.Words t.here (inside ++ [matching]) q := by rwa [skips.lexis, place]
    refine (ends_skipGroup_closed (passesInGroup_of_nested nested) settled
      (TokenKind.isCloser_of_closer? pair) words enough).bind fun _ u settled passed => ?_
    exact next u fuel settled (skips.trans passed.1) passed.2
      (Nat.lt_of_le_of_lt (passed.2 ▸ words.le) enough)

/-- Where recovering may stop behind what it skips. -/
def Stop (s : ParserState) (closer : Option TokenKind) (kind : TokenKind) : Prop :=
  kind = .comma ∨ kind = .lineBreak ∨ Stopping s closer kind

/-- **Nested words are skipped** up to where recovering may stop, and a separator that stands there with
them. -/
lemma ends_skipToSeparator_past (nested : Nested false kinds) {fuel : Nat} {closer : Option TokenKind}
    (closes : ∀ kind ∈ closer, kind.isCloser) (settled : s.Settled)
    (words : s.lexis.Words s.here kinds q) (enough : s.here.rest.length < fuel)
    (stop : Stop s closer (s.lexis.read false .word q).token.kind) :
    Ends (skipToSeparator fuel closer) s fun _ t =>
      Skips s t ∧ t.here = s.lexis.pastSeparator q := by
  refine ends_skipToSeparator_nested nested closes settled words enough
    fun t fuel settled skips place enough => ?_
  have reads : t.reads false .word = s.lexis.read false .word q := by
    rw [ParserState.reads, skips.lexis, place]
  rw [Lexis.pastSeparator]
  by_cases separates : (s.lexis.read false .word q).token.kind = .comma ∨
      (s.lexis.read false .word q).token.kind = .lineBreak
  · have going : ¬ Stopping t closer (s.lexis.read false .word q).token.kind := fun stops => by
      rcases stops.delimits closes with ends | closed
      · rcases separates with kind | kind <;> rw [kind] at ends <;> cases ends
      · rcases separates with kind | kind <;> rw [kind] at closed <;> cases closed
    refine ends_skipToSeparator_taken settled enough (by rwa [reads])
      fun u fuel settled further there _ => ?_
    rw [reads, if_pos (by simpa using separates), if_pos separates]
    exact .pure settled ⟨skips.trans further, by rw [there, reads]⟩
  · have stops : Stopping t closer (s.lexis.read false .word q).token.kind := by
      rw [Stopping, skips.awaited]
      exact (or_assoc.mpr stop).resolve_left separates
    refine (ends_skipToSeparator_stopping settled enough closes (by rwa [reads])).mono
      fun _ u stopped => ?_
    rw [if_neg separates]
    exact ⟨skips.trans stopped.1, stopped.2.trans place⟩

/-! ## Recovering -/

/-- **Recovering skips nested groups whole.**  Let texts, colons and groups stand ahead, with whatever
separators and closers inside of the groups, and behind them a word at which recovering may stop: a comma, a
line break, the end of the text, the closer asked for, or one that a group waits for.  Then recovering takes
exactly these words, and the one behind them just if it is a comma or a line break; it leaves everything but
the tokens as it was, the reports included, and nothing more waits to be reported.  And skipping a group
whose opener was taken takes exactly what is up to the end of the closer that belongs to it, no matter which
closers are awaited. -/
theorem recover_nested (settled : s.Settled) :
    (∀ {target : Option TokenKind} {run : List TokenKind} {q : Place},
      (∀ kind ∈ target, kind.isCloser) → Nested false run → s.lexis.Words s.here run q →
      Stop s target (s.lexis.read false .word q).token.kind →
      Ends (recover target) s fun _ t =>
        t.here = s.lexis.pastSeparator q ∧
          t = { s with tokens := t.tokens, recovering := false } ∧
          t.tokens.reports ⊆ s.tokens.reports) ∧
    (∀ {opener closer : TokenKind} {inside : List TokenKind} {q : Place} {fuel : Nat},
      opener.closer? = some closer → Nested true inside →
      s.lexis.Words s.here (inside ++ [closer]) q → s.here.rest.length < fuel →
      Ends (skipGroup fuel opener.closer?) s fun _ t => t.here = q ∧ Skips s t) := by
  constructor
  · intro target run q closes nested words stop
    have began : ParserState.Settled { s with recovering := true } := settled_of_same settled rfl rfl
    obtain ⟨_, t, skip, ended, skips, place⟩ := ends_skipToSeparator_past nested closes began words
      (Nat.lt_succ_self _) stop
    refine ⟨(), _, recover_ok settled skip, settled_of_same ended rfl rfl, place, ?_, skips.waiting⟩
    have reports : t.reports = s.reports := skips.quiet rfl
    refine (congrArg (fun t : ParserState => { t with recovering := false }) skips.same).trans ?_
    exact congrArg (fun reports =>
      { s with tokens := t.tokens, reports := reports, recovering := false }) reports
  · intro opener closer inside q fuel pair nested words enough
    rw [pair]
    exact (ends_skipGroup_closed (passesInGroup_of_nested nested) settled
      (TokenKind.isCloser_of_closer? pair) words enough).mono fun _ _ passed => passed.symm

/-- For instance where a list and a tuple are read: the closers of both are met in what is skipped, and do
not stop it there. -/
theorem recover_nested_of_awaited :
    let s : ParserState :=
      { initial {} ⟨"", "a: [b, (c\n)] d, e"⟩ {} with awaited := [.rBracket, .rParen] }
    let u : ParserState :=
      { initial {} ⟨"", "b, (c\n)] d, e"⟩ {} with awaited := [.rBracket, .rParen] }
    Ends (recover (some .rBracket)) s (fun _ t => t.here = s.here.skip 15 ∧ t.reports = #[]) ∧
      Ends (skipGroup 15 (some .rBracket)) u fun _ t => t.here = u.here.skip 8 := by
  intro s u
  have line : Nested true [.literal, .lineBreak] :=
    (@Nested.word true .literal (.inl rfl)).append (.separator (.inr rfl))
  have inside : Nested true [.literal, .comma, .lParen, .literal, .lineBreak, .rParen] :=
    (@Nested.word true .literal (.inl rfl)).append
      ((@Nested.separator .comma (.inl rfl)).append (.group rfl line))
  have run : Nested false [.literal, .colon, .lBracket, .literal, .comma, .lParen, .literal,
      .lineBreak, .rParen, .rBracket, .literal] :=
    (@Nested.word false .literal (.inl rfl)).append ((@Nested.word false .colon (.inr rfl)).append
      ((@Nested.group false .lBracket .rBracket _ rfl inside).append
        (@Nested.word false .literal (.inl rfl))))
  have settled : s.Settled := ⟨rfl, trivial⟩
  have settled' : u.Settled := ⟨rfl, trivial⟩
  constructor
  · refine ((recover_nested settled).1 (by rintro _ ⟨⟩; rfl) run
      (by decide +kernel : s.lexis.Words s.here _ (s.here.skip 14))
      (.inl (by decide +kernel))).mono fun _ t passed => ?_
    obtain ⟨place, same, -⟩ := passed
    exact ⟨place.trans (by decide +kernel), by rw [same]; rfl⟩
  · exact ((recover_nested settled').2 (rfl : TokenKind.lBracket.closer? = _) inside
      (by decide +kernel) (by decide +kernel)).mono fun _ t passed => passed.1

end Parser

end TreeLang
