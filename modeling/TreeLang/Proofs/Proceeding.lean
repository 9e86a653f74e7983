import TreeLang.Proofs.Prolonging

/-!
# Values of a text that goes on
-/

namespace TreeLang.Parser

variable {α β γ : Type} {s t : ParserState} {cs : List Char} {skipBreaks : Bool}
  {R : ParserState → ParserState → Prop}
  {Q : α → ParserState → ParserState → Prop}

/-! ## Steps between tokens -/

/-- **A step that makes nodes** does the same for both parsers. -/
lemma continues_nodewise {step : Parser α} [stays : StaysLoud step] (nodewise : Nodewise step) :
    Keeps cs step step := by
  refine ⟨stays, fun {s t} beside => ?_⟩
  obtain ⟨result, change, h⟩ := nodewise s
  have same := beside.same
  have alike : Alike s t := by
    rw [same]
    exact ⟨rfl, rfl, rfl, rfl, rfl⟩
  rw [h s (.refl s), h t alike]
  cases result with
  | error fault => exact .lost trivial
  | ok a =>
    by_cases quiet : change.reports = []
    · refine .ok a { beside with
        same := congrArg change.apply same
        silent := ?_
        settled := ⟨beside.settled.handed, beside.settled.coherent⟩
        settled' := ⟨beside.settled'.handed, beside.settled'.coherent⟩ }
      simp [Change.apply, quiet, beside.silent]
    · exact .lost (.inl (append_ne_empty (.inr quiet)))

/-- A change on which tokens have no influence. -/
lemma Prolonged.change (prolonged : Prolonged cs s t) {f : ParserState → ParserState}
    (framed : ∀ s tokens, f { s with tokens := tokens } = { f s with tokens := tokens })
    (recovering : (f s).recovering = s.recovering) (reports : (f s).reports = s.reports) :
    Prolonged cs (f s) (f t) := by
  have tokens (s : ParserState) : (f s).tokens = s.tokens :=
    congrArg (·.tokens) (framed s s.tokens)
  constructor
  · rw [tokens, ← framed s t.tokens, ← prolonged.same]
  · rw [tokens, tokens, prolonged.policy]
  · rw [recovering, prolonged.attends]
  · rw [reports, prolonged.silent]
  · rw [tokens, prolonged.waiting]
  · rw [tokens, prolonged.waiting']
  · rw [tokens, prolonged.known]
  · rw [tokens, prolonged.known']
  · rw [ParserState.here, ParserState.here, tokens, tokens]
    exact prolonged.anchor

/-- One that leaves the operators as they are. -/
lemma Beside.change (beside : Beside cs s t) {f : ParserState → ParserState}
    (framed : ∀ s tokens, f { s with tokens := tokens } = { f s with tokens := tokens })
    (operators : ∀ s, (f s).visible.operators = s.visible.operators)
    (recovering : (f s).recovering = s.recovering) (reports : (f s).reports = s.reports) :
    Beside cs (f s) (f t) := by
  have tokens (s : ParserState) : (f s).tokens = s.tokens :=
    congrArg (·.tokens) (framed s s.tokens)
  have settled {s : ParserState} (settled : s.Settled) : (f s).Settled :=
    ⟨by rw [tokens]; exact settled.handed, by rw [tokens, operators]; exact settled.coherent⟩
  refine ⟨⟨beside.toProlonged.change framed recovering reports, settled beside.settled,
    settled beside.settled'⟩, ?_⟩
  rw [operators]
  exact beside.unbroken

section Change

variable {change : ParserState → α × ParserState}
  (framed : ∀ s tokens, change { s with tokens := tokens }
    = ((change s).1, { (change s).2 with tokens := tokens }))

include framed

lemma Prolonged.value_eq (prolonged : Prolonged cs s t) : (change t).1 = (change s).1 := by
  rw [prolonged.same, framed]

/-- Steps that do not look at the text. -/
lemma continues_modifyGet (stays : StaysLoud (MonadStateOf.modifyGet change : Parser α))
    (operators : ∀ s, (change s).2.visible.operators = s.visible.operators)
    (recovering : ∀ s, (change s).2.recovering = s.recovering)
    (reports : ∀ s, (change s).2.reports = s.reports) :
    Keeps cs (MonadStateOf.modifyGet change) (MonadStateOf.modifyGet change) := by
  refine ⟨stays, fun {s t} beside => ?_⟩
  have after : Beside cs (change s).2 (change t).2 :=
    beside.change (f := fun u => (change u).2) (fun s tokens => congrArg Prod.snd (framed s tokens))
      operators (recovering s) (reports s)
  have run (u : ParserState) : (MonadStateOf.modifyGet change : Parser α) u
      = .ok (change u).1 (change u).2 := rfl
  rw [run, run, beside.toProlonged.value_eq framed]
  exact .ok _ after

/-- Such steps may change the operators, until what was read ahead is forgotten. -/
lemma parts_modifyGet (stays : StaysLoud (MonadStateOf.modifyGet change : Parser α))
    (recovering : ∀ s, (change s).2.recovering = s.recovering)
    (reports : ∀ s, (change s).2.reports = s.reports) :
    Continues (Prolonged cs) (Prolonged cs) (MonadStateOf.modifyGet change)
      (MonadStateOf.modifyGet change) := by
  refine ⟨stays, fun {s t} prolonged => ?_⟩
  have after : Prolonged cs (change s).2 (change t).2 :=
    prolonged.change (f := fun u => (change u).2)
      (fun s tokens => congrArg Prod.snd (framed s tokens)) (recovering s) (reports s)
  have run (u : ParserState) : (MonadStateOf.modifyGet change : Parser α) u
      = .ok (change u).1 (change u).2 := rfl
  rw [run, run, prolonged.value_eq framed]
  exact .ok _ after

end Change

lemma continues_await (closer : TokenKind) : Keeps cs (await closer) (await closer) :=
  continues_modifyGet (fun _ _ => rfl) (inferInstanceAs (StaysLoud (await closer)))
    (fun _ => rfl) (fun _ => rfl) fun _ => rfl

lemma continues_settle : Keeps cs settle settle :=
  continues_modifyGet (fun _ _ => rfl) (inferInstanceAs (StaysLoud settle))
    (fun _ => rfl) (fun _ => rfl) fun _ => rfl

lemma continues_setSuppressed (suppressed : Bool) :
    Keeps cs (setSuppressed suppressed) (setSuppressed suppressed) :=
  continues_modifyGet (fun _ _ => rfl) (inferInstanceAs (StaysLoud (setSuppressed suppressed)))
    (fun _ => rfl) (fun _ => rfl) fun _ => rfl

lemma continues_takeSuppressed :
    Continues (Begun cs skipBreaks) (Begun cs skipBreaks) takeSuppressed takeSuppressed := by
  refine ⟨inferInstance, fun {s t} begun => ?_⟩
  have after : Beside cs { s with suppressed := false } { t with suppressed := false } :=
    begun.toBeside.change (f := fun s => { s with suppressed := false }) (fun _ _ => rfl)
      (fun _ => rfl) rfl rfl
  have same : t.suppressed = s.suppressed := by rw [begun.same]
  have run (u : ParserState) : takeSuppressed u = .ok u.suppressed { u with suppressed := false } := rfl
  rw [run, run, same]
  exact .ok _ ⟨after, begun.more⟩

lemma continues_closesAwaited (kind : TokenKind) :
    Continues (Begun cs skipBreaks) (Begun cs skipBreaks) (closesAwaited kind)
      (closesAwaited kind) := by
  refine ⟨inferInstance, fun {s t} begun => ?_⟩
  have same : t.awaited = s.awaited := by rw [begun.same]
  have run (u : ParserState) :
      closesAwaited kind u = .ok (kind.isCloser && u.awaited.contains kind) u := rfl
  rw [run, run, same]
  exact .ok _ begun

lemma continues_position (beside : ∀ {s t}, R s t → Beside cs s t) :
    Continues R R position position := by
  refine ⟨inferInstance, fun {s t} states => ?_⟩
  have run (u : ParserState) : position u = .ok u.tokens.place.offset u := rfl
  rw [run, run, (beside states).peering.place.carried.offset]
  exact .ok _ states

/-- Two parsers to which the first one listens. -/
class Attending (R : ParserState → ParserState → Prop) : Prop where
  attends : ∀ {s t}, R s t → s.recovering = false

instance : Attending (Beside cs) := ⟨fun beside => beside.attends⟩

instance : Attending (Begun cs skipBreaks) := ⟨fun begun => begun.attends⟩

/-- **What is complained of is lost.** -/
lemma continues_complain [Attending R] {next next' : Parser α} [stays : StaysLoud next]
    (offset : Nat) (cause : Cause) :
    Yields R Q (complain offset cause >>= fun _ => next) next' :=
  .told (told_complain offset cause).bind Attending.attends _

lemma continues_complain_recover [Attending R] {next : Unit → Parser α} {other : Parser α}
    [stays : ∀ a, StaysLoud (next a)] (offset : Nat) (cause : Cause) (closer : Option TokenKind) :
    Yields R Q (complain offset cause >>= fun _ => recover closer >>= next) other :=
  .told (told_complain_recover offset cause closer) Attending.attends _

lemma continues_giveUp [Attending R] {next other : Parser α} [stays : StaysLoud next]
    (offset : Nat) (cause : Cause) :
    Yields R Q (giveUp offset cause >>= fun _ => next) other :=
  .told (told_giveUp offset cause).bind Attending.attends _

/-! ### Groups, operators and separators -/

/-- **The head of a group is the same**, for behind a name a line break opens no group either. -/
lemma continues_groupHead? (nameMode : Mode) :
    Continues (Begun cs true) (Beside cs) (groupHead? nameMode) (groupHead? nameMode) := by
  refine ⟨inferInstance, fun {s t} begun => ?_⟩
  rw [groupHead?]
  refine begun.toBeside.peering.look_bind (fun _ _ => inferInstance) (fun _ => begun.more_of nameMode)
    (fun {s₁ t₁} _ peering => ?_) nofun
  have taken (found : Option (Option Token × Token)) {s t : ParserState} (peering : Peering cs s t) :
      Goes (fun _ => Beside cs) ((do commit; return found : Parser _) s) ((do commit; return found : Parser _) t) := by
    obtain ⟨s₁, t₁, run, run', beside⟩ := peering.commit
    rw [bind_ok run, bind_ok run']
    exact .ok _ beside
  have none {s t : ParserState} (lapsed : Lapsed cs s t) : Goes (fun _ => Beside cs)
      ((do rewind; return .none : Parser (Option (Option Token × Token))) s)
      ((do rewind; return .none : Parser (Option (Option Token × Token))) t) :=
    .ok _ lapsed.rewind
  dsimp only
  split
  · exact taken _ peering
  split
  · refine peering.look_bind (fun _ _ => inferInstance) nofun (fun more peering => ?_)
      fun _ _ _ _ breaks ends lapsed => ?_
    · split
      · exact taken _ peering
      · exact none peering.toLapsed
    · rw [if_neg (by simp [ends, TokenKind.isOpener]), if_neg (by simp [breaks, TokenKind.isOpener])]
      exact none lapsed
  · exact none peering.toLapsed

/-- Side by side whatever the text does. -/
lemma Yields.begun {step other : Parser α} (continues : Yields (Beside cs) Q step other) :
    Yields (Begun cs skipBreaks) Q step other :=
  continues.before fun begun => begun.toBeside

/-- What is known of the text is forgotten. -/
lemma Yields.done (a : α) :
    Continues (Begun cs skipBreaks) (Beside cs) (Pure.pure a) (Pure.pure a) :=
  Yields.begun (.pure a)

/-- **The operator is the same**, where the text does not end. -/
lemma continues_operatorOf? (group : PriorityGroup) :
    Continues (Begun cs skipBreaks) (Beside cs) (operatorOf? group skipBreaks)
      (operatorOf? group skipBreaks) := by
  refine (continues_peek skipBreaks .operation).bind fun token => .ite ?_ (.done none)
  cases group.find? token.content (token.kind = .keyword) with
  | some op => exact (continues_skipToken skipBreaks .operation).bind fun _ => .pure (some op)
  | none => exact .done none

/-- No operator is where the line ends. -/
lemma continues_operatorOf?_line (group : PriorityGroup) :
    Keeps cs (operatorOf? group false) (operatorOf? group false) := by
  refine .line (continues_operatorOf? group) fun beside ended =>
    beside.peek_over ended .operation fun ends breaks beside => ?_
  rw [if_neg (by rw [ends]; decide), if_neg (by rw [breaks]; decide)]
  exact .ok none beside

/-- **Behind an element** the first parser wants more text, and where there is more the separator is
the same. -/
lemma continues_separator (mode : Mode) (closer : TokenKind) {next next' : Parser α}
    (wants : Wants next) (continues : Yields (Beside cs) Q next next') :
    Yields (Beside cs) Q (separator mode closer >>= fun _ => next)
      (separator mode closer >>= fun _ => next') := by
  have stays : StaysLoud next := continues.stays
  have begun : Continues (Begun cs false) (Beside cs) (separator mode closer)
      (separator mode closer) := by
    refine (continues_peek false mode).bind fun token => .ite (continues_skipToken false mode) ?_
    refine (continues_closesAwaited token.kind).bind fun closes => .ite (.done ()) ?_
    rw [← bind_pure (recover (some closer))]
    exact continues_complain_recover _ _ _
  refine .line (begun.bind fun _ => continues) fun {s t} beside ended => .lost ?_
  obtain ⟨_, u, run, settled, rfl, moves, here, -⟩ := ends_peek beside.settled false mode
  have ends : (s.reads false mode).token.kind = .endOfInput := (ended_iff mode).mpr ended
  have starved : Starved s := ⟨beside.settled, beside.attends, ended_of_line ended⟩
  have passed : separator mode closer s = .ok () u := by
    rw [separator, bind_ok run, if_neg (by simp [ends])]
    exact (bind_ok rfl).trans (by rw [if_pos (by simp [ends])]; rfl)
  rw [bind_ok passed]
  exact wants.lost (starved.moved settled moves here)

/-! ## Rounds -/

/-- No group is closed by the end of a text. -/
lemma closer_ne_endOfInput (opener : TokenKind) : opener.closer?.getD .rParen ≠ .endOfInput := by
  cases opener <;> decide

section Rounds

variable {options : CompileOptions} {calls calls' : ∀ {γ : Type}, Reading γ → Parser γ}
  (h : ∀ {γ : Type} (call : Reading γ), call.plain = true → Keeps cs (calls call) (calls' call))
  (group : ∀ nameMode expands, Continues (Begun cs true) (Beside cs)
    (calls (.group nameMode expands)) (calls' (.group nameMode expands)))
  (wants : ∀ {γ : Type} (call : Reading γ), call.wants = true → Wants (calls call))

include group in
lemma continues_atomRound (nameMode mode : Mode) (missing : Token → Cause) :
    Continues (Begun cs true) (Beside cs) (Reading.atomRound calls nameMode mode missing)
      (Reading.atomRound calls' nameMode mode missing) := by
  refine continues_takeSuppressed.bind fun suppressed => (group _ _).bind fun found => ?_
  cases found with
  | some node => exact .pure node
  | none =>
    refine .split ((starves_peek mode).wants fun token ended => ?_)
      ((continues_peek true mode).bind fun token => .ite ?_ (continues_complain _ _))
    · rw [if_neg (by rw [ended]; decide)]
      exact (told_complain _ _).bind.wants
    · exact (continues_skipToken true mode).bind fun _ =>
        continues_nodewise (nodewise_primitive token _)

include h

lemma continues_contentRound (opener : TokenKind) (start : Nat) :
    Keeps cs (Reading.contentRound calls opener start) (Reading.contentRound calls' opener start) := by
  have elements (mode : Mode) : Keeps cs
      (calls (.elements start mode (opener.closer?.getD .rParen) []))
      (calls' (.elements start mode (opener.closer?.getD .rParen) [])) :=
    h _ (by simpa [Reading.plain] using closer_ne_endOfInput opener)
  refine .ite ?_ (.ite ?_ ?_)
  · exact (h (.properties start []) rfl).bind fun _ => .pure _
  · exact (elements .value).bind fun _ => .pure _
  · exact (elements .operation).bind fun _ => .pure _

lemma continues_groupRound (nameMode : Mode) (expands : Bool) :
    Continues (Begun cs true) (Beside cs) (Reading.groupRound options calls nameMode expands)
      (Reading.groupRound options calls' nameMode expands) := by
  refine (continues_groupHead? nameMode).bind fun head => ?_
  match head with
  | none => exact .pure none
  | some (name, opener) =>
    refine (continues_nodewise (nodewise_reference ⟨name, opener, expands⟩)).bind fun reference => ?_
    refine (continues_await _).bind fun _ => (continues_contentRound h _ _).bind fun content => ?_
    exact continues_settle.bind fun _ =>
      (continues_nodewise (nodewise_completeGroup options _ _ _ _ _)).bind fun _ => .pure _

include wants

lemma continues_propertiesRound (start : Nat) (known : List (String × Node)) :
    Continues (Begun cs true) (Beside cs) (Reading.propertiesRound options calls start known)
      (Reading.propertiesRound options calls' start known) := by
  have again (known : List (String × Node)) : Keeps cs (calls (.properties start known))
      (calls' (.properties start known)) := h (.properties start known) rfl
  have stays : StaysLoud (calls (.properties start known)) := (again known).stays
  refine (continues_peek true .key).bind fun token => .ite ?_ ?_
  · exact (continues_skipToken true .key).bind fun _ => .pure _
  refine (continues_closesAwaited token.kind).bind fun closes => .ite ?_ (.ite ?_ (.ite ?_ ?_))
  · exact continues_complain _ _
  · exact (continues_skipToken true .key).bind fun _ => continues_complain _ _
  · refine (continues_skipToken true .key).bind fun _ => ?_
    refine continues_peek_line .key (fun colon => .ite ?_ ?_) fun {colon colon'} ends breaks => ?_
    · exact continues_complain_recover _ _ _
    · refine (continues_skipToken false .key).bind fun _ => (h .value rfl).bind fun value => ?_
      refine (continues_nodewise (nodewise_addProperty options token value known)).bind fun known => ?_
      exact continues_separator .key .rBrace (wants _ rfl) (again known)
    · rw [if_pos (by rw [ends]; decide)]
      exact continues_complain_recover _ _ _
  · exact continues_complain_recover _ _ _

lemma continues_elementsRound (start : Nat) (mode : Mode) {closer : TokenKind}
    (closes : closer ≠ .endOfInput) (known : List Node) :
    Continues (Begun cs true) (Beside cs) (Reading.elementsRound calls start mode closer known)
      (Reading.elementsRound calls' start mode closer known) := by
  have plain (known : List Node) : (Reading.elements start mode closer known).plain = true := by
    simpa [Reading.plain] using closes
  have stays : StaysLoud (calls (.elements start mode closer known)) := (h _ (plain known)).stays
  refine (continues_peek true mode).bind fun token => .ite ?_ ?_
  · exact (continues_skipToken true mode).bind fun _ => .pure _
  refine (continues_closesAwaited token.kind).bind fun closes => .ite ?_ (.ite ?_ ?_)
  · exact continues_complain _ _
  · exact (continues_skipToken true mode).bind fun _ => continues_complain _ _
  · have element : Keeps cs (Reading.elementRound calls mode) (Reading.elementRound calls' mode) :=
      .ite (h .expression rfl) (h .value rfl)
    refine (element.bind fun node => ?_).begun
    exact continues_separator mode closer (wants _ (plain (node :: known))) (h _ (plain _))

omit wants in
lemma continues_levelRound (groups : List PriorityGroup) :
    Continues (Begun cs true) (Beside cs) (Reading.levelRound calls groups)
      (Reading.levelRound calls' groups) := by
  cases groups with
  | nil => exact (h .operand rfl).begun
  | cons ops tighter =>
    rw [Reading.levelRound, Reading.levelRound]
    cases ops.fixity with
    | binary =>
      exact ((h (.level tighter) rfl).bind fun left => h (.binary ops tighter left) rfl).begun
    | postfixed =>
      exact ((h (.level tighter) rfl).bind fun inner => h (.postfixes ops inner) rfl).begun
    | prefixed =>
      refine (continues_position Begun.toBeside).bind fun start => (continues_operatorOf? ops).bind fun op => ?_
      cases op with
      | none => exact h (.level tighter) rfl
      | some op =>
        exact (h (.level (ops :: tighter)) rfl).bind fun inner =>
          continues_nodewise (nodewise_operatorNode op _ _)

omit wants in
lemma continues_binaryRound (ops : PriorityGroup) (tighter : List PriorityGroup) (left : Node) :
    Keeps cs (Reading.binaryRound calls ops tighter left)
      (Reading.binaryRound calls' ops tighter left) := by
  refine (continues_operatorOf?_line ops).bind fun op => ?_
  cases op with
  | none => exact .pure left
  | some op =>
    refine .ite ((h (.level _) rfl).bind fun right => continues_nodewise (nodewise_binaryNode _ _ _)) ?_
    exact (continues_setSuppressed _).bind fun _ => (h (.level _) rfl).bind fun right =>
      (continues_setSuppressed _).bind fun _ =>
        (continues_nodewise (nodewise_binaryNode op left right)).bind fun node =>
          h (.binary ops tighter node) rfl

omit wants in
lemma continues_postfixesRound (ops : PriorityGroup) (inner : Node) :
    Keeps cs (Reading.postfixesRound calls ops inner) (Reading.postfixesRound calls' ops inner) := by
  refine (continues_operatorOf?_line ops).bind fun op => ?_
  cases op with
  | none => exact .pure inner
  | some op =>
    exact (continues_position id).bind fun stop =>
      (continues_nodewise (nodewise_operatorNode op [inner] _)).bind fun node =>
        h (.postfixes ops node) rfl

/-! ### Parameters and clauses -/

omit wants in
lemma continues_fallbackRound (parameter : Parameter) :
    Keeps cs (Reading.fallbackRound calls parameter) (Reading.fallbackRound calls' parameter) := by
  refine continues_peek_line .parameter (fun token => .ite ?_ (.done _))
    fun {token token'} ends breaks => ?_
  · exact (continues_skipToken false .parameter).bind fun _ => (h .value rfl).bind fun _ => .pure _
  · rw [if_neg (by rw [ends]; decide), if_neg (by rw [breaks]; decide)]
    exact .pure _

omit h wants in
lemma continues_parameterType (parameter : Parameter) :
    Keeps cs (parameterType parameter) (parameterType parameter) := by
  refine continues_peek_line .parameter (fun colon => .ite ?_ (.done _))
    fun {token token'} ends breaks => ?_
  · refine (continues_skipToken false .parameter).bind fun _ =>
      continues_advance_line .word (fun type => ?_) fun {type} ends => ?_
    · cases if type.kind = .literal then ShapeSet.ofAnnotation? type.content else none with
      | some shapes => exact .pure _
      | none => exact continues_complain _ _
    · rw [if_neg (by rw [ends]; decide)]
      exact (told_complain _ _).bind
  · rw [if_neg (by rw [ends]; decide), if_neg (by rw [breaks]; decide)]
    exact .pure _

omit h wants in
/-- **Behind a parameter** the first parser wants more text, and where there is more the separator is
the same. -/
lemma continues_parameterSeparator {closer : TokenKind} (parameter : Parameter)
    {next next' : Bool → Parser α} (wants : Wants (next true))
    (continues : ∀ separated, Yields (Beside cs) Q (next separated) (next' separated)) :
    Yields (Beside cs) Q (parameterSeparator closer parameter >>= next)
      (parameterSeparator closer parameter >>= next') := by
  have begun : Continues (Begun cs false) (Beside cs) (parameterSeparator closer parameter)
      (parameterSeparator closer parameter) := by
    refine (continues_peek false .parameter).bind fun token => .ite ?_ ?_
    · exact (continues_skipToken false .parameter).bind fun _ => .pure true
    refine (continues_closesAwaited token.kind).bind fun closes => .ite (.done true) ?_
    exact continues_complain_recover _ _ _
  refine .line (begun.bind continues) fun {s t} beside ended => .lost ?_
  obtain ⟨_, u, run, settled, rfl, moves, here, -⟩ := ends_peek beside.settled false .parameter
  have ends : (s.reads false .parameter).token.kind = .endOfInput := (ended_iff .parameter).mpr ended
  have starved : Starved s := ⟨beside.settled, beside.attends, ended_of_line ended⟩
  have passed : parameterSeparator closer parameter s = .ok true u := by
    rw [parameterSeparator, bind_ok run, if_neg (by simp [ends])]
    exact (bind_ok rfl).trans (by rw [if_pos (by simp [ends])]; rfl)
  rw [bind_ok passed]
  exact wants.lost (starved.moved settled moves here)

lemma continues_parametersRound {closer : TokenKind} (closes : closer ≠ .endOfInput)
    (known : List Parameter) (complete : Bool) :
    Continues (Begun cs true) (Beside cs) (Reading.parametersRound calls closer known complete)
      (Reading.parametersRound calls' closer known complete) := by
  have again (known : List Parameter) (complete : Bool) :
      Keeps cs (calls (.parameters closer known complete))
        (calls' (.parameters closer known complete)) :=
    h _ (by simpa [Reading.plain] using closes)
  have stays (known : List Parameter) (complete : Bool) :
      StaysLoud (calls (.parameters closer known complete)) := (again known complete).stays
  refine (continues_peek true .parameter).bind fun token => .ite ?_ ?_
  · exact (continues_skipToken true .parameter).bind fun _ => .pure _
  refine (continues_closesAwaited token.kind).bind fun closed => .ite ?_ (.ite ?_ (.ite ?_ ?_))
  · exact continues_complain _ _
  · exact (continues_skipToken true .parameter).bind fun _ => continues_complain _ _
  · refine (continues_skipToken true .parameter).bind fun _ =>
      (continues_parameterType (.plain token.content)).bind fun x =>
        (continues_fallbackRound h x.1).bind fun parameter =>
          continues_parameterSeparator parameter ?_ fun _ => again _ _
    exact wants _ (by simpa [Reading.wants] using closes)
  · exact continues_complain_recover _ _ _

omit h wants in
lemma continues_clausePriority : Keeps cs clausePriority clausePriority := by
  refine continues_peek_line .word (fun opener => .ite (.done _) ?_)
    fun {token token'} ends breaks => ?_
  · refine (continues_skipToken false .word).bind fun _ =>
      continues_advance_line .word (fun number => ?_) fun {number} ends => ?_
    · cases if number.kind = .literal then Priority.ofText? number.content else none with
      | none => exact continues_giveUp _ _
      | some priority =>
        cases priority with
        | finite rank =>
          refine continues_advance_line .word (fun close => .ite (.pure _) (continues_giveUp _ _))
            fun {close} ends => ?_
          rw [if_neg (by rw [ends]; decide)]
          exact (told_giveUp _ _).bind
        | infinite | notANumber => exact continues_giveUp _ _
    · rw [if_neg (by rw [ends]; decide)]
      exact (told_giveUp _ _).bind
  · rw [if_pos (by rw [ends]; decide), if_pos (by rw [breaks]; decide)]
    exact .pure _

omit wants in
lemma continues_clausesRound (known : List Clause) :
    Keeps cs (Reading.clausesRound calls known) (Reading.clausesRound calls' known) := by
  refine continues_advance_line .word (fun word => .ite (continues_giveUp _ _) ?_) fun {word} ends => ?_
  · refine continues_clausePriority.bind fun priority => ?_
    cases priority with
    | none => exact .pure none
    | some priority =>
      refine continues_peek_line .word (fun token => .ite ?_ (.done _))
        fun {token token'} ends breaks => ?_
      · exact (continues_skipToken false .word).bind fun _ => h (.clauses _) rfl
      · rw [if_neg (by simp [Token.isWord, ends]), if_neg (by simp [Token.isWord, breaks])]
        exact .pure _
  · rw [if_pos (by rw [ends]; decide)]
    exact (told_giveUp _ _).bind

include group in
/-- **A round is the same in the longer text.** -/
lemma continues_round [∀ {γ : Type} (call : Reading γ), StaysLoud (calls call)] (call : Reading α)
    (plain : call.plain = true)
    (starves : ∀ nameMode expands, Starves (calls (.group nameMode expands)) (· = none)) :
    Keeps cs (call.round options calls) (call.round options calls') := by
  have wanted (wanted : call.wants = true) : Wants (call.round options calls) :=
    wants_round wants starves call wanted
  cases call with
  | value => exact .split (wanted rfl) (continues_atomRound group _ _ _)
  | operand => exact .split (wanted rfl) (continues_atomRound group _ _ _)
  | properties start known => exact .split (wanted rfl) (continues_propertiesRound h wants start known)
  | elements start mode closer known =>
    have closes : closer ≠ .endOfInput := by simpa [Reading.plain] using plain
    exact .split (wanted plain) (continues_elementsRound h wants start mode closes known)
  | expression =>
    refine .get (fun s => inferInstance) fun {s t} beside => ?_
    have same : t.visible = s.visible := by rw [beside.same]
    rw [same]
    exact (h (.level _) rfl).goes beside
  | level groups => exact .split (wanted rfl) (continues_levelRound h groups)
  | binary ops tighter left => exact continues_binaryRound h ops tighter left
  | postfixes ops inner => exact continues_postfixesRound h ops inner
  | parameters closer known complete =>
    have closes : closer ≠ .endOfInput := by simpa [Reading.plain] using plain
    exact .split (wanted plain) (continues_parametersRound h wants closes known complete)
  | clauses known => exact continues_clausesRound h known
  | group | skipGroup | skipToSeparator => cases plain

end Rounds

/-- **Whatever is read inside a statement is the same in the longer text.** -/
theorem continues_within (options : CompileOptions) {fuel more : Nat} (le : fuel ≤ more) :
    (∀ {γ : Type} (call : Reading γ), call.plain = true →
      Keeps cs (call.within options fuel) (call.within options more)) ∧
    ∀ nameMode expands, Continues (Begun cs true) (Beside cs)
      ((Reading.group nameMode expands).within options fuel)
      ((Reading.group nameMode expands).within options more) := by
  induction fuel generalizing more with
  | zero =>
    refine ⟨fun call _ => ?_, fun _ _ => ?_⟩
    all_goals
      rw [Reading.within_zero]
      exact .throw _ _
  | succ fuel ih =>
    obtain ⟨more, rfl⟩ : ∃ n, more = n + 1 := ⟨more - 1, by omega⟩
    obtain ⟨plain, group⟩ := ih (Nat.le_of_succ_le_succ le)
    obtain ⟨wants, starves⟩ := wants_within options fuel
    refine ⟨fun call plain' => ?_, fun _ _ => ?_⟩
    · rw [Reading.within_succ, Reading.within_succ]
      exact continues_round plain group wants call plain' starves
    · rw [Reading.within_succ, Reading.within_succ]
      exact continues_groupRound plain _ _

end TreeLang.Parser
