import TreeLang.Proofs.Raising

/-!
# Complaints in turn

What is read inside a statement complains in order, except that a group is said not to be closed when its
end is met, and that a key is said to be taken behind its value.  Both are said of a token that lies
behind, and of which nothing else is said in these words.  So each call of the parser takes its turns, by
induction on the calls in it.

* **`Reading.Turns`** — the turns of the complaints in a call.
* `Reading.raises_elements`, `Reading.raises_properties`, … — the rounds of the calls.
* **`Reading.takesTurns_within`** — every call takes its turns.
-/

namespace TreeLang

namespace Parser

variable {α β : Type} {text : List Char} {s t u : ParserState} {low : Nat} {mode : Mode}
  {options : CompileOptions}

/-! ## Calls -/

namespace Reading

/-- **The turns of the complaints in a call**, by where the next token stands before and after it.  The
elements of a group take turns from one on that is free; that the group is not closed is said in the turn
of its first token. -/
def Turns (text : List Char) : Reading α → ParserState → α → ParserState → Prop
  | value, s, _, t | operand, s, _, t | expression, s, _, t | level _, s, _, t =>
    Raises text (Within (3 * front s) (3 * front t + 1)) s t
  | group .., s, none, t => Silences text s t ∧ t.here = s.here
  | group .., s, some _, t => Raises text (Within (3 * front s) (3 * front t + 1)) s t
  | properties start _, s, _, t => ∀ low, 3 * start < low → Free .key .rBrace low s →
    low ≤ 3 * front t + 1 ∧
      Raises text (fun turn => turn = 3 * start ∨ Within low (3 * front t + 1) turn) s t
  | elements start mode closer _, s, _, t => closer.isCloser = true → mode ≠ .key →
    ∀ low, 3 * start < low → Free mode closer low s → low ≤ 3 * front t + 1 ∧
      Raises text (fun turn => turn = 3 * start ∨ Within low (3 * front t + 1) turn) s t
  | binary .., s, _, t | postfixes .., s, _, t =>
    Raises text (Within (3 * front s + 1) (3 * front t + 1)) s t
  | parameters .., _, _, _ | clauses _, _, _, _ | skipGroup _, _, _, _
  | skipToSeparator _, _, _, _ => True

/-- **A step that complains as a call does.** -/
def TakesTurns (text : List Char) (call : Reading α) (step : Parser α) : Prop :=
  ∀ s, Amid text s → Leaves step s fun value t => call.Turns text s value t

variable {calls : ∀ {β : Type}, Reading β → Parser β}
  (placed : ∀ {β : Type} (call : Reading β), call.TakesTurns text (calls call))

include placed

/-- A value or an operand. -/
lemma raises_atom (nameMode mode : Mode) {missing : Token → Cause}
    (ranks : ∀ token, (missing token).Ranks 0) (amid : Amid text s) :
    Leaves (atomRound calls nameMode mode missing) s fun _ t =>
      Raises text (Within (3 * front s) (3 * front t + 1)) s t := by
  have first : Silences text s { s with suppressed := false } :=
    .change amid.settled rfl rfl rfl rfl rfl
  refine .changed ?_
  refine (placed (group nameMode !s.suppressed) _ (amid.raises first)).bind fun found t grouped => ?_
  cases found with
  | some node => exact .pure (first.behind grouped)
  | none =>
    obtain ⟨quiet, stays⟩ := grouped
    have quiet := first.behind quiet
    refine (raises_peek (amid.raises quiet) true mode).bind fun token u looked => ?_
    obtain ⟨further, rfl, rests⟩ := looked
    have quiet := quiet.before further
    have stays : u.here = s.here := rests.here.trans stays
    have amid := amid.raises quiet
    split
    · refine (raises_skipToken amid true mode).bind fun _ v taken => ?_
      have amid := amid.raises taken.1
      refine (minds_primitive amid.lone _ _).mono fun _ w minds => ?_
      have quiet := (quiet.before taken.1).before (minds.raises amid)
      exact quiet.mono fun _ none => none.elim
    · rw [start_reads, ← rests.front_eq, front_eq_of_here stays]
      refine (raises_complain amid (front s) (ranks _)).bind fun _ v noted => .changed (.pure ?_)
      dsimp only
      have amid := amid.raises noted.1
      have complains := (quiet.behind noted.1).before ((Minds.numbered v).raises amid)
      have further := complains.front_le
      exact complains.mono fun _ same => ⟨Nat.le_of_eq same.symm, by omega⟩

/-- The contents of a group, from its opener on. -/
lemma raises_content (opener : TokenKind) {start : Nat} (amid : Amid text s) (lt : start < front s) :
    Leaves (contentRound calls opener start) s fun _ t => Raises text
      (fun turn => turn = 3 * start ∨ Within (3 * front s) (3 * front t + 1) turn) s t := by
  have low : 3 * start < 3 * front s := by omega
  rw [contentRound]
  split
  · refine (placed (properties start []) s amid).bind ?_
    rintro ⟨entries, stop⟩ t turns
    exact .pure (turns _ low (.inl (Nat.le_refl _))).2
  have closes := isCloser_closer? opener
  set closer := opener.closer?.getD .rParen
  split
  · refine (placed (elements start .value closer []) s amid).bind ?_
    rintro ⟨elements, stop⟩ t turns
    exact .pure (turns closes (by decide) _ low (.inl (Nat.le_refl _))).2
  · refine (placed (elements start .operation closer []) s amid).bind ?_
    rintro ⟨elements, stop⟩ t turns
    exact .pure (turns closes (by decide) _ low (.inl (Nat.le_refl _))).2

/-- A group, if one is next. -/
lemma raises_group (nameMode : Mode) (expands : Bool) (amid : Amid text s) :
    Leaves (groupRound options calls nameMode expands) s fun found t =>
      (group nameMode expands).Turns text s found t := by
  refine (raises_groupHead? amid nameMode).bind fun found t looked => ?_
  obtain ⟨quiet, stays, between⟩ := looked
  match found with
  | none => exact .pure ⟨quiet, stays rfl⟩
  | some (name, opener) =>
    obtain ⟨begins, taken⟩ := between name opener rfl
    have amid := amid.raises quiet
    refine (leaves_reference amid.lone ⟨name, opener, expands⟩).bind ?_
    rintro reference t rfl
    refine .modify ?_
    have awaits : Silences text t (t.awaiting (opener.kind.closer?.getD .rParen)) :=
      .change amid.settled rfl rfl rfl rfl rfl
    have further := offset_le_front t
    rw [show (Head.mk name opener expands).start = front s from begins]
    refine (raises_content placed opener.kind (amid.raises awaits)
      (show front s < front t by omega)).bind fun content u inside => .modify ?_
    have amid := (amid.raises awaits).raises inside
    have settles : Silences text u { u with awaited := u.awaited.tail } :=
      .change amid.settled rfl rfl rfl rfl rfl
    have amid := amid.raises settles
    refine (minds_completeGroup amid.lone name expands reference).bind fun node v minds => .pure ?_
    have raises := ((quiet.before awaits).behind inside).before
      (settles.before (minds.raises amid))
    have after : front u ≤ front v := (settles.before (minds.raises amid)).front_le
    refine raises.mono fun turn turns => ?_
    have le : front t ≤ front u := inside.front_le
    rcases turns with same | ⟨low, high⟩
    · exact ⟨by omega, by omega⟩
    · have low : 3 * front t ≤ turn := low
      exact ⟨by omega, by omega⟩

/-- The elements of a list or an operation. -/
lemma raises_elements {start : Nat} {closer : TokenKind} {known : List Node}
    (closes : closer.isCloser = true) (mode : Mode) (other : mode ≠ .key) (amid : Amid text s)
    (lt : 3 * start < low) (free : Free mode closer low s) :
    Leaves (elementsRound calls start mode closer known) s fun _ t => low ≤ 3 * front t + 1 ∧
      Raises text (fun turn => turn = 3 * start ∨ Within low (3 * front t + 1) turn) s t := by
  refine raises_peek_first amid fun t amid rests strides => ?_
  have free := free.rests rests strides
  have bound : low ≤ 3 * front t + 1 := by
    rcases free with le | ⟨-, le⟩ | ⟨key, -⟩
    · omega
    · exact le
    · exact absurd key other
  have again {u : ParserState} {known : List Node} (proceeds : Proceeds text mode closer low t u) :
      Leaves (calls (elements start mode closer known)) u fun _ v => low ≤ 3 * front v + 1 ∧
        Raises text (fun turn => turn = 3 * start ∨ Within low (3 * front v + 1) turn) t v := by
    obtain ⟨high, le, free, before⟩ := proceeds
    refine (placed (elements start mode closer known) u (amid.raises before)).mono fun _ v turns => ?_
    obtain ⟨le', after⟩ := turns closes other high (by omega) free
    exact turns_append before after lt le le'
  split
  · refine (raises_skipToken amid true mode).bind fun _ u taken => .pure ?_
    have further : front t ≤ front u := taken.1.front_le
    exact turns_of_ended (taken.1.mono fun _ none => none.elim) (by omega)
  rename_i open_
  refine .closesAwaited ?_
  split
  · have ranks : (Cause.openGroup closer).Ranks 0 :=
      .of_apart "unclosed group; expected " _ rfl (by decide)
    refine (raises_complain amid start ranks).bind fun _ u noted => .pure ?_
    exact turns_of_ended noted.1 (by rw [noted.2.1.front_eq]; exact bound)
  rename_i going
  have le : low ≤ 3 * front t := by
    rcases free with le | ⟨stops, -⟩ | ⟨key, -⟩
    · exact le
    · exact absurd stops (not_stopping_of_open open_ going)
    · exact absurd key other
  split
  · rename_i comma
    refine raises_misplaced amid (.of_whole (by decide)) (by rw [comma]; decide) fun u told => ?_
    have onward : front t ≤ front u := told.front_le
    have told : Raises text (Within low (3 * front u)) t u :=
      told.mono fun _ within => ⟨Nat.le_trans le within.1, within.2⟩
    exact again (told.proceeds (by omega) (Nat.le_refl _))
  · have element : Leaves (elementRound calls mode) t fun _ u =>
        Raises text (Within (3 * front t) (3 * front u + 1)) t u := by
      rw [elementRound]
      split
      · exact placed expression t amid
      · exact placed value t amid
    refine element.bind fun node u read => ?_
    have further : front t ≤ front u := read.front_le
    have before : Raises text (Within low (3 * front u + 1)) t u :=
      read.mono fun _ within => ⟨Nat.le_trans le within.1, within.2⟩
    exact (raises_separator (amid.raises read) closes before (by omega)).bind fun _ _ => again

/-- **The value of a property**, which the key is said to be taken of, and the separator behind it. -/
lemma raises_entry {r : ParserState} {key : Token} {known : List (String × Node)}
    {next : List (String × Node) → Parser β} {result : β → ParserState → Prop} (amid : Amid text s)
    (quiet : Silences text r s) (begins : key.start = front r) (past : front r < front s)
    (le : low ≤ 3 * front r + 2)
    (h : ∀ extended t, Proceeds text .key .rBrace low r t → Leaves (next extended) t result) :
    Leaves (do
      let node ← calls value
      let extended ← addProperty options key node known
      separator .key .rBrace
      next extended) s result := by
  refine (placed value s amid).bind fun node t read => ?_
  have read : Raises text (Within (3 * front s) (3 * front t + 1)) s t := read
  have amid := amid.raises read
  refine (raises_addProperty amid key node known).bind fun extended u added => ?_
  obtain ⟨added, -⟩ := added
  rw [begins] at added
  have le' : front s ≤ front t := read.front_le
  have le'' : front t ≤ front u := added.front_le
  have before : Raises text (Within low (3 * front u + 1)) r u := by
    refine ((quiet.behind read).append added fun turn within same => ?_).mono fun turn turns => ?_
    · have := within.1
      omega
    · rcases turns with ⟨above, below⟩ | same
      · exact ⟨by omega, by omega⟩
      · exact ⟨by omega, by omega⟩
  exact (raises_separator (amid.raises added) rfl before (by omega)).bind fun _ v => h extended v

/-- The properties of an object. -/
lemma raises_properties {start : Nat} {known : List (String × Node)} (amid : Amid text s)
    (lt : 3 * start < low) (free : Free .key .rBrace low s) :
    Leaves (propertiesRound options calls start known) s fun _ t => low ≤ 3 * front t + 1 ∧
      Raises text (fun turn => turn = 3 * start ∨ Within low (3 * front t + 1) turn) s t := by
  refine raises_peek_first amid fun t amid rests strides => ?_
  have free := free.rests rests strides
  have bound : low ≤ 3 * front t + 2 := by
    rcases free with le | ⟨-, le⟩ | ⟨-, -, le⟩ <;> omega
  have again {u : ParserState} {known : List (String × Node)}
      (proceeds : Proceeds text .key .rBrace low t u) :
      Leaves (calls (properties start known)) u fun _ v => low ≤ 3 * front v + 1 ∧
        Raises text (fun turn => turn = 3 * start ∨ Within low (3 * front v + 1) turn) t v := by
    obtain ⟨high, le, free, before⟩ := proceeds
    refine (placed (properties start known) u (amid.raises before)).mono fun _ v turns => ?_
    obtain ⟨le', after⟩ := turns high (by omega) free
    exact turns_append before after lt le le'
  split
  · rename_i closed
    refine (raises_skipToken amid true .key).bind fun _ u taken => .pure ?_
    have past : front t < front u :=
      Nat.lt_of_lt_of_le (begin_lt_here (by rw [closed]; decide) taken.2) (offset_le_front u)
    exact turns_of_ended (taken.1.mono fun _ none => none.elim) (by omega)
  rename_i open_
  refine .closesAwaited ?_
  split
  · rename_i stops
    have ranks : Cause.openObject.Ranks 0 := .of_whole (by decide)
    refine (raises_complain amid start ranks).bind fun _ u noted => .pure ?_
    refine turns_of_ended noted.1 ?_
    rw [noted.2.1.front_eq]
    rcases free with le | ⟨-, le⟩ | ⟨-, reads, -⟩
    · omega
    · exact le
    · rcases Bool.or_eq_true_iff.mp stops with ends | closed
      · rw [of_decide_eq_true ends] at reads
        cases reads
      · rw [not_isCloser_of_isText reads] at closed
        cases closed
  rename_i going
  have going := not_stopping_of_open open_ going
  have inside (other : ¬ (t.reads true .key).token.kind.isText = true) : low ≤ 3 * front t := by
    rcases free with le | ⟨stops, -⟩ | ⟨-, reads, -⟩
    · exact le
    · exact absurd stops going
    · exact absurd reads other
  split
  · rename_i comma
    have le := inside (by rw [comma]; decide)
    refine raises_misplaced amid (.of_whole (by decide)) (by rw [comma]; decide) fun u told => ?_
    have onward : front t ≤ front u := told.front_le
    have told : Raises text (Within low (3 * front u)) t u :=
      told.mono fun _ within => ⟨Nat.le_trans le within.1, within.2⟩
    exact again (told.proceeds (by omega) (Nat.le_refl _))
  split
  · rename_i reads
    refine (raises_skipToken amid true .key).bind fun _ u taken => ?_
    obtain ⟨quiet, place⟩ := taken
    have past : front t < u.here.offset :=
      begin_lt_here (fun ends => by rw [ends] at reads; cases reads) place
    have amid := amid.raises quiet
    refine (raises_peek amid false .key).bind fun colon v looked => ?_
    obtain ⟨further, rfl, rested⟩ := looked
    have quiet := quiet.before further
    have amid := amid.raises further
    rw [← further.strides.reads_eq rested.here]
    rw [← rested.here] at past
    split
    · refine raises_missingColon amid quiet past bound ?_ fun _ => again
      exact .of_apart "expected ':' after key " _ ((String.append_assoc ..).trans
        (String.append_assoc ..)) (by decide)
    · refine (raises_skipToken amid false .key).bind fun _ w taken => ?_
      refine raises_entry placed (amid.raises taken.1) (quiet.before taken.1) (start_reads t .key) ?_
        bound fun _ _ => again
      exact Nat.lt_of_lt_of_le past (Nat.le_trans taken.1.strides.offset_le (offset_le_front w))
  · rename_i other
    exact raises_missingKey amid going other (inside other) fun _ => again

/-- An expression of some groups of operators. -/
lemma raises_level (groups : List PriorityGroup) (amid : Amid text s) :
    Leaves (levelRound calls groups) s fun _ t =>
      Raises text (Within (3 * front s) (3 * front t + 1)) s t := by
  cases groups with
  | nil => exact placed operand s amid
  | cons ops tighter =>
    -- An operand, and the operators behind it.
    have onward {t u : ParserState} (first : Raises text (Within (3 * front s) (3 * front t + 1)) s t)
        (rest : Raises text (Within (3 * front t + 1) (3 * front u + 1)) t u) :
        Raises text (Within (3 * front s) (3 * front u + 1)) s u := by
      have le : front s ≤ front t := first.front_le
      have le' : front t ≤ front u := rest.front_le
      exact first.within rest (by omega) (by omega)
    simp only [levelRound]
    cases ops.fixity with
    | binary =>
      refine (placed (level tighter) s amid).bind fun left t read => ?_
      exact (placed (binary ops tighter left) t (amid.raises read)).mono fun _ _ => onward read
    | postfixed =>
      refine (placed (level tighter) s amid).bind fun left t read => ?_
      exact (placed (postfixes ops left) t (amid.raises read)).mono fun _ _ => onward read
    | prefixed =>
      refine .position amid.settled ((raises_operatorOf? amid ops true).bind fun found t looked => ?_)
      obtain ⟨quiet, stays, -⟩ := looked
      have le : front s ≤ front t := quiet.front_le
      cases found with
      | none =>
        refine (placed (level tighter) t (amid.raises quiet)).mono fun _ _ read => ?_
        exact (quiet.behind read).mono fun _ within => ⟨by have := within.1; omega, within.2⟩
      | some op =>
        refine (placed (level (ops :: tighter)) t (amid.raises quiet)).bind fun node u read => ?_
        have amid := (amid.raises quiet).raises read
        refine (minds_operatorNode amid.lone op [node] _).mono fun _ v minds => ?_
        have made := minds.raises amid
        have le' : front u ≤ front v := made.front_le
        exact ((quiet.behind read).before made).mono fun _ within =>
          ⟨by have := within.1; omega, by have := within.2; omega⟩

/-- An operand and the binary operators behind it. -/
lemma raises_binary (ops : PriorityGroup) (tighter : List PriorityGroup) (left : Node)
    (amid' : Amid text s) :
    Leaves (binaryRound calls ops tighter left) s fun _ t =>
      Raises text (Within (3 * front s + 1) (3 * front t + 1)) s t := by
  refine (raises_operatorOf? amid' ops false).bind fun found t looked => ?_
  obtain ⟨quiet, -, taken⟩ := looked
  cases found with
  | none => exact .pure (quiet.mono fun _ none => none.elim)
  | some op =>
    have lt : front s < front t := Nat.lt_of_lt_of_le (taken rfl) (offset_le_front t)
    have amid := amid'.raises quiet
    -- The node of the operator, behind its right operand.
    have makes {u : ParserState} {right : Node}
        (read : Raises text (Within (3 * front t) (3 * front u + 1)) t u) :
        Leaves (binaryNode op left right) u fun _ v =>
          Raises text (Within (3 * front s + 1) (3 * front v + 1)) s v := by
      have amid := amid.raises read
      refine (minds_binaryNode amid.lone op left right).mono fun _ v minds => ?_
      have made := minds.raises amid
      have le : front u ≤ front v := made.front_le
      exact ((quiet.behind read).before made).mono fun _ within =>
        ⟨by have := within.1; omega, by have := within.2; omega⟩
    have suppresses {u : ParserState} (suppressed : Bool) (amid : Amid text u) :
        Silences text u (u.suppress suppressed) :=
      .change amid.settled rfl rfl rfl rfl rfl
    dsimp only
    split
    · exact (placed (level (ops :: tighter)) t amid).bind fun right u read => makes read
    · have first := suppresses op.accessor amid
      refine .modify ((placed (level tighter) _ (amid.raises first)).bind fun right u read =>
        .modify ?_)
      have read : Raises text (Within (3 * front t) (3 * front u + 1)) t u := first.behind read
      have resumes := suppresses false (amid.raises read)
      have read : Raises text (Within (3 * front t) (3 * front (u.suppress false) + 1)) t
          (u.suppress false) := read.before resumes
      refine (makes read).bind fun node v made => ?_
      refine (placed (binary ops tighter node) v (amid'.raises made)).mono fun _ w rest => ?_
      have le : front s ≤ front v := made.front_le
      have le' : front v ≤ front w := rest.front_le
      exact made.within rest (by omega) (by omega)

/-- An operand and the postfix operators behind it. -/
lemma raises_postfixes (ops : PriorityGroup) (inner : Node) (amid : Amid text s) :
    Leaves (postfixesRound calls ops inner) s fun _ t =>
      Raises text (Within (3 * front s + 1) (3 * front t + 1)) s t := by
  refine (raises_operatorOf? amid ops false).bind fun found t looked => ?_
  obtain ⟨quiet, -, taken⟩ := looked
  cases found with
  | none => exact .pure (quiet.mono fun _ none => none.elim)
  | some op =>
    have amid := amid.raises quiet
    refine .position amid.settled ((minds_operatorNode amid.lone op [inner] _).bind
      fun made u minds => ?_)
    have quiet := quiet.before (minds.raises amid)
    have le : front s ≤ front u := quiet.front_le
    refine (placed (postfixes ops made) u (amid.raises (minds.raises amid))).mono
      fun _ _ rest => ?_
    exact (quiet.behind rest).mono fun _ within => ⟨by have := within.1; omega, within.2⟩

/-- **A round takes its turns**, as far as the calls in it do. -/
theorem takesTurns_round (call : Reading α) : call.TakesTurns text (call.round options calls) := by
  intro s amid
  cases call with
  | value =>
    exact raises_atom placed _ _ (fun token => .of_apart "expected a value, found " token.text rfl
      (by decide)) amid
  | operand =>
    exact raises_atom placed _ _ (fun token => .of_apart "expected an operand, found " token.text rfl
      (by decide)) amid
  | group nameMode expands => exact raises_group placed nameMode expands amid
  | properties start known =>
    exact fun _ _ run low lt free => raises_properties placed amid lt free _ _ run
  | elements start mode closer known =>
    exact fun _ _ run closes other low lt free =>
      raises_elements placed closes mode other amid lt free _ _ run
  | expression => exact .get (placed (level _) s amid)
  | level groups => exact raises_level placed groups amid
  | binary ops tighter left => exact raises_binary placed ops tighter left amid
  | postfixes ops inner => exact raises_postfixes placed ops inner amid
  | parameters | clauses | skipGroup | skipToSeparator => exact fun _ _ _ => trivial

omit placed

/-- **Every call takes its turns**, by induction on its bound. -/
theorem takesTurns_within (fuel : Nat) (call : Reading α) :
    call.TakesTurns text (call.within options fuel) := by
  induction fuel generalizing α with
  | zero =>
    intro s _
    rw [within_zero]
    exact fun _ _ run => nomatch run
  | succ fuel ih =>
    rw [within_succ]
    exact takesTurns_round ih call

end Reading

end Parser

end TreeLang
