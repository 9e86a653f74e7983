import TreeLang.Parse.File
import TreeLang.Proofs.Totality

/-!
# Rounds of reading

The functions that read call each other and themselves, each time with less left of a bound.  A
round is the body of one of them, with whatever it calls left open.  What a round comes to may
depend on some of the calls and not on others; this file says what it means that only calls further
on in the text matter, and what follows from it: the bound has no influence on what is read, and is
never used up.

* `Reading` — a call of one of the functions inside a statement.
* `Reading.round`, `Reading.within_succ` — the body of such a function, and the function made of it.
* `Reading.Below` — a call further on in the text, or at the same place and closer to a token.
* `Agree` — two steps do the same, and something holds afterwards.
* **`Reading.Descends`** — the round of a call rests on the calls below it and on no other.
* **`Reading.agree_within`** — a function in which every call descends does not feel its bound.
-/

namespace TreeLang.Parser

open TreeLang.Lexis

variable {α β : Type} {s t u : ParserState}

/-! ## Calls and rounds -/

/-- **A call** of one of the functions that read inside a statement, by what it answers. -/
inductive Reading : Type → Type where
  | value : Reading Node
  | operand : Reading Node
  | group (nameMode : Mode) (expands : Bool) : Reading (Option Node)
  | properties (start : Nat) (properties : List (String × Node)) :
    Reading (List (String × Node) × Nat)
  | elements (start : Nat) (mode : Mode) (closer : TokenKind) (elements : List Node) :
    Reading (List Node × Nat)
  | expression : Reading Node
  | level (groups : List PriorityGroup) : Reading Node
  | binary (group : PriorityGroup) (tighter : List PriorityGroup) (left : Node) : Reading Node
  | postfixes (group : PriorityGroup) (operand : Node) : Reading Node
  | parameters (closer : TokenKind) (parameters : List Parameter) (complete : Bool) :
    Reading (Option (List Parameter))
  | clauses (clauses : List Clause) : Reading (Option (List Clause))
  | skipGroup (closer : Option TokenKind) : Reading Unit
  | skipToSeparator (closer : Option TokenKind) : Reading Unit

namespace Reading

variable (options : CompileOptions)

/-- A call with a bound. -/
def within (fuel : Nat) : Reading α → Parser α
  | value => parseValue options fuel
  | operand => parseOperand options fuel
  | group nameMode expands => parseGroup? options fuel nameMode expands
  | properties start known => parseProperties options fuel start known
  | elements start mode closer known => parseElements options fuel start mode closer known
  | expression => parseExpression options fuel
  | level groups => parseLevel options fuel groups
  | binary ops tighter left => parseBinary options fuel ops tighter left
  | postfixes ops inner => Parser.postfixes fuel ops inner
  | parameters closer known complete => parameterList options closer fuel known complete
  | clauses known => clauseList fuel known
  | skipGroup closer => Parser.skipGroup fuel closer
  | skipToSeparator closer => Parser.skipToSeparator fuel closer

variable (calls : ∀ {β : Type}, Reading β → Parser β)

/-- An atom: a group, or a single token. -/
def atomRound (nameMode mode : Mode) (missing : Token → Cause) : Parser Node := do
  let expands := !(← takeSuppressed)
  match ← calls (group nameMode expands) with
  | some node => return node
  | none =>
    let token ← peek true mode
    if token.kind.isText then
      Parser.skipToken true mode
      primitive token expands
    else
      complain token.start (missing token)
      placeholderAt token.start

/-- The contents of a group behind its opener. -/
def contentRound (opener : TokenKind) (start : Nat) : Parser GroupContent :=
  let closer := opener.closer?.getD .rParen
  if opener = .lBrace then do
    let (entries, stop) ← calls (properties start [])
    return .properties entries stop
  else if opener = .lBracket then do
    let (values, stop) ← calls (elements start .value closer [])
    return .values values false stop
  else do
    let (values, stop) ← calls (elements start .operation closer [])
    return .values values true stop

/-- A group with the name in front of it, if one is next. -/
def groupRound (nameMode : Mode) (expands : Bool) : Parser (Option Node) := do
  match ← groupHead? nameMode with
  | none => return none
  | some (name, opener) =>
    let head : Head := ⟨name, opener, expands⟩
    let reference ← head.reference
    await (opener.kind.closer?.getD .rParen)
    let content ← contentRound calls opener.kind head.start
    settle
    return some (← completeGroup options name head.start expands reference content)

/-- The properties of an object, up to the next one. -/
def propertiesRound (start : Nat) (known : List (String × Node)) :
    Parser (List (String × Node) × Nat) := do
  let token ← peek true .key
  if token.kind = .rBrace then
    Parser.skipToken true .key
    return (known, token.stop)
  else if token.kind = .endOfInput || (← closesAwaited token.kind) then
    complain start .openObject
    return (known, token.start)
  else if token.kind = .comma then
    Parser.skipToken true .key
    complain token.start .redundantComma
    calls (properties start known)
  else if token.kind.isText then
    Parser.skipToken true .key
    let colon ← peek false .key
    if colon.kind ≠ .colon then
      complain colon.start (.expectedKeyColon token.content colon)
      recover (some .rBrace)
      calls (properties start known)
    else
      Parser.skipToken false .key
      let node ← calls value
      let known ← addProperty options token node known
      separator .key .rBrace
      calls (properties start known)
  else
    complain token.start (.expectedKey token)
    recover (some .rBrace)
    calls (properties start known)

/-- An element of a list or an operation. -/
def elementRound (mode : Mode) : Parser Node :=
  if mode = .operation then calls expression else calls value

/-- The elements of a list or an operation, up to the next one. -/
def elementsRound (start : Nat) (mode : Mode) (closer : TokenKind) (known : List Node) :
    Parser (List Node × Nat) := do
  let token ← peek true mode
  if token.kind = closer then
    Parser.skipToken true mode
    return (known.reverse, token.stop)
  else if token.kind = .endOfInput || (← closesAwaited token.kind) then
    complain start (.openGroup closer)
    return (known.reverse, token.start)
  else if token.kind = .comma then
    Parser.skipToken true mode
    complain token.start .redundantComma
    calls (elements start mode closer known)
  else
    let element ← elementRound calls mode
    separator mode closer
    calls (elements start mode closer (element :: known))

/-- An expression, of the loosest of some groups of operators. -/
def levelRound : List PriorityGroup → Parser Node
  | [] => calls operand
  | ops :: tighter =>
    match ops.fixity with
    | .binary => do
      let left ← calls (level tighter)
      calls (binary ops tighter left)
    | .postfixed => do
      let inner ← calls (level tighter)
      calls (postfixes ops inner)
    | .prefixed => do
      let start ← position
      match ← operatorOf? ops true with
      | some op =>
        let inner ← calls (level (ops :: tighter))
        operatorNode op [inner] ⟨start, inner.span.stop⟩
      | none => calls (level tighter)

/-- A binary operator behind an operand, up to the next one. -/
def binaryRound (ops : PriorityGroup) (tighter : List PriorityGroup) (left : Node) :
    Parser Node := do
  match ← operatorOf? ops false with
  | none => return left
  | some op =>
    if ops.rightAssociative then
      let right ← calls (level (ops :: tighter))
      binaryNode op left right
    else
      setSuppressed op.accessor
      let right ← calls (level tighter)
      setSuppressed false
      let node ← binaryNode op left right
      calls (binary ops tighter node)

/-- A postfix operator behind an operand, up to the next one. -/
def postfixesRound (ops : PriorityGroup) (inner : Node) : Parser Node := do
  match ← operatorOf? ops false with
  | none => return inner
  | some op =>
    let node ← operatorNode op [inner] ⟨inner.span.start, ← position⟩
    calls (postfixes ops node)

/-- The fallback behind the equals sign of a parameter. -/
def fallbackRound (parameter : Parameter) : Parser Parameter := do
  if (← peek false .parameter).kind = .equals then
    Parser.skipToken false .parameter
    return { parameter with fallback := some (← calls value) }
  else return parameter

/-- The parameters of a macro, up to the next one. -/
def parametersRound (closer : TokenKind) (known : List Parameter) (complete : Bool) :
    Parser (Option (List Parameter)) := do
  let token ← peek true .parameter
  if token.kind = closer then
    Parser.skipToken true .parameter
    return if complete then some known else none
  else if token.kind = .endOfInput || (← closesAwaited token.kind) then
    complain token.start (.openParameters closer)
    return none
  else if token.kind = .comma then
    Parser.skipToken true .parameter
    complain token.start .redundantComma
    calls (parameters closer known complete)
  else if token.kind.isText then
    Parser.skipToken true .parameter
    let (parameter, typed) ← parameterType (.plain token.content)
    let parameter ← fallbackRound calls parameter
    let separated ← parameterSeparator closer parameter
    calls (parameters closer (known ++ [parameter]) (complete && typed && separated))
  else
    complain token.start (.expectedParameterName token)
    recover (some closer)
    calls (parameters closer known false)

/-- The clauses of an operator statement, up to the next one. -/
def clausesRound (known : List Clause) : Parser (Option (List Clause)) := do
  let word ← advance false .word
  if word.kind ≠ .literal then
    giveUp word.start (.expectedProperty word)
    return none
  else
    match ← clausePriority with
    | none => return none
    | some priority =>
      let known := known ++ [⟨word.content, priority, word.start⟩]
      if (← peek false .word).isWord "and" then
        Parser.skipToken false .word
        calls (clauses known)
      else return some known

/-- A token on the way to the closer of a group that is skipped. -/
def skipGroupRound (closer : Option TokenKind) : Parser Unit := do
  let token ← peek true .word
  if token.kind = .endOfInput then return
  if some token.kind ≠ closer && (← closesAwaited token.kind) then return
  Parser.skipToken true .word
  if some token.kind = closer then return
  if token.kind.isOpener then calls (skipGroup token.kind.closer?)
  calls (skipGroup closer)

/-- A token on the way to a separator. -/
def skipToSeparatorRound (closer : Option TokenKind) : Parser Unit := do
  let token ← peek false .word
  if token.kind = .endOfInput then return
  if some token.kind = closer || (← closesAwaited token.kind) then return
  Parser.skipToken false .word
  if token.kind = .comma || token.kind = .lineBreak then return
  if token.kind.isOpener then calls (skipGroup token.kind.closer?)
  calls (skipToSeparator closer)

/-- **The body of a call**, with the calls that it makes left open. -/
def round : Reading α → Parser α
  | value => atomRound calls .word .value .expectedValue
  | operand => atomRound calls .operation .operation .expectedOperand
  | group nameMode expands => groupRound options calls nameMode expands
  | properties start known => propertiesRound options calls start known
  | elements start mode closer known => elementsRound calls start mode closer known
  | expression => do calls (level (← get).visible.operators.priorityGroups)
  | level groups => levelRound calls groups
  | binary ops tighter left => binaryRound calls ops tighter left
  | postfixes ops inner => postfixesRound calls ops inner
  | parameters closer known complete => parametersRound calls closer known complete
  | clauses known => clausesRound calls known
  | skipGroup closer => skipGroupRound calls closer
  | skipToSeparator closer => skipToSeparatorRound calls closer

/-- A call whose bound is used up is broken off. -/
lemma within_zero (call : Reading α) : call.within options 0 = throw .exhausted := by
  cases call <;> rfl

/-- **A call is its body**, in which every call has one step less to go. -/
lemma within_succ (fuel : Nat) (call : Reading α) :
    call.within options (fuel + 1) = call.round options (fun next => next.within options fuel) := by
  cases call with
  | value => simp only [within, round, parseValue]; rfl
  | operand => simp only [within, round, parseOperand]; rfl
  | group nameMode expands =>
    rw [within, parseGroup?_succ, round, groupRound]
    congr 1
    funext found
    cases found with
    | none => rfl
    | some found => simp only [groupBehind, contentRound, groupContent, within, bind_assoc]
  | properties => simp only [within, round, parseProperties]; rfl
  | elements => simp only [within, round, parseElements_succ]; rfl
  | expression => simp only [within, round, parseExpression]
  | level groups =>
    cases groups with
    | nil => simp only [within, round, parseLevel, levelRound]
    | cons => simp only [within, round, parseLevel, levelRound] <;> rfl
  | binary => simp only [within, round, parseBinary]; rfl
  | postfixes => simp only [within, round, Parser.postfixes]; rfl
  | parameters => simp only [within, round, parameterList]; rfl
  | clauses => simp only [within, round, clauseList]; rfl
  | skipGroup => simp only [within, round, Parser.skipGroup]; rfl
  | skipToSeparator => simp only [within, round, Parser.skipToSeparator]; rfl

end Reading

/-! ## Steps that agree -/

/-- **Something was passed over**: what reading changes, between two tokens. -/
structure Passed (s t : ParserState) : Prop where
  settled : t.Settled
  passes : Passes s t
  depth : t.depth = s.depth

/-- **A fault broke a step off**, and no bound did. -/
structure BrokenOff (s : ParserState) (fault : Fault) (t : ParserState) : Prop where
  bounded : fault ≠ .exhausted
  settled : t.Settled
  visible : t.visible = s.visible
  exported : t.exported = s.exported
  imports : t.imports = s.imports
  policy : t.tokens.policy = s.tokens.policy
  onward : s.here.Onward t.here
  reports : s.reports.toList <+: t.reports.toList

/-- **Two steps agree**: they do the same, and then something holds, or something else where a fault
broke them off. -/
def Agree (broken : Fault → ParserState → Prop) (step other : Parser α) (s : ParserState)
    (property : α → ParserState → Prop) : Prop :=
  step s = other s ∧
    match step s with
    | .ok value t => property value t
    | .error fault t => broken fault t

lemma Passed.refl (settled : s.Settled) : Passed s s :=
  ⟨settled, .refl s, rfl⟩

lemma Passed.trans (first : Passed s t) (second : Passed t u) : Passed s u :=
  ⟨second.settled, first.passes.trans second.passes, second.depth.trans first.depth⟩

lemma Passed.moved (passed : Passed s t) (settled : u.Settled) (moves : Moves t u) : Passed s u :=
  passed.trans ⟨settled, moves.toPasses, moves.depth⟩

/-- What breaks off behind something else. -/
lemma BrokenOff.behind {fault : Fault} (passes : Passes s t) (broken : BrokenOff t fault u) :
    BrokenOff s fault u :=
  ⟨broken.bounded, broken.settled, broken.visible.trans passes.visible,
    broken.exported.trans passes.exported, broken.imports.trans passes.imports,
    broken.policy.trans passes.policy, passes.onward.trans broken.onward,
    passes.reports.trans broken.reports⟩

namespace Agree

variable {broken worse : Fault → ParserState → Prop} {step other : Parser α} {property weaker : α → ParserState → Prop}
  {next next' : α → Parser β} {result : β → ParserState → Prop}

/-- A step that comes to an end agrees with itself. -/
lemma of_ends (ends : Ends step u property)
    (h : ∀ value t, t.Settled → property value t → weaker value t) :
    Agree broken step step u weaker := by
  obtain ⟨value, t, hstep, settled, has⟩ := ends
  refine ⟨rfl, ?_⟩
  rw [hstep]
  exact h value t settled has

lemma pure {value : α} (h : property value u) :
    Agree broken (Pure.pure value) (Pure.pure value) u property :=
  ⟨rfl, h⟩

lemma mono (agree : Agree broken step other u property) (h : ∀ value t, property value t → weaker value t) :
    Agree broken step other u weaker := by
  refine ⟨agree.1, ?_⟩
  have outcome := agree.2
  cases hstep : step u with
  | ok value t =>
    rw [hstep] at outcome
    exact h value t outcome
  | error fault t =>
    rw [hstep] at outcome
    exact outcome

/-- One step after the other. -/
lemma bind (first : Agree broken step other u property)
    (second : ∀ value t, property value t → Agree broken (next value) (next' value) t result) :
    Agree broken (step >>= next) (other >>= next') u result := by
  obtain ⟨same, outcome⟩ := first
  cases hstep : step u with
  | ok value t =>
    rw [hstep] at same outcome
    obtain ⟨sameNext, outcome⟩ := second value t outcome
    refine ⟨?_, ?_⟩
    · rw [bind_ok hstep, bind_ok same.symm, sameNext]
    · rw [bind_ok hstep]
      exact outcome
  | error fault t =>
    rw [hstep] at same outcome
    have broken : (step >>= next) u = .error fault t := by
      simp only [Bind.bind, EStateM.bind, hstep]
    have broken' : (other >>= next') u = .error fault t := by
      simp only [Bind.bind, EStateM.bind, ← same]
    refine ⟨broken.trans broken'.symm, ?_⟩
    rw [broken]
    exact outcome

/-- A step after one whose outcome is known. -/
lemma onto {step : Parser α} {value : α} (run : step u = .ok value t)
    (h : Agree broken (next value) (next' value) t result) :
    Agree broken (step >>= next) (step >>= next') u result := by
  unfold Agree
  rw [bind_ok run, bind_ok run]
  exact h

/-- A step after one that comes to an end. -/
lemma after (first : Ends step u property)
    (second : ∀ value t, t.Settled → property value t →
      Agree broken (next value) (next' value) t result) :
    Agree broken (step >>= next) (step >>= next') u result :=
  (of_ends first fun _ _ settled has => And.intro settled has).bind fun value t has =>
    second value t has.1 has.2

/-- A step that is broken off behind another state. -/
lemma rebase (agree : Agree broken step other u property)
    (h : ∀ {fault v}, broken fault v → worse fault v) : Agree worse step other u property := by
  refine ⟨agree.1, ?_⟩
  have outcome := agree.2
  cases hstep : step u with
  | ok value v =>
    rw [hstep] at outcome
    exact outcome
  | error fault v =>
    rw [hstep] at outcome
    exact h outcome

/-- A step that is broken off behind something else. -/
lemma behind (passes : Passes s t) (agree : Agree (BrokenOff t) step other u property) :
    Agree (BrokenOff s) step other u property :=
  agree.rebase fun broken => broken.behind passes

/-- A step that looks at the state first. -/
lemma get {next next' : ParserState → Parser β} (h : Agree broken (next u) (next' u) u result) :
    Agree broken (MonadState.get >>= next) (MonadState.get >>= next') u result :=
  h

/-- A step that replaces the state first. -/
lemma set {next next' : PUnit → Parser β} (h : Agree broken (next ()) (next' ()) t result) :
    Agree broken (MonadStateOf.set t >>= next) (MonadStateOf.set t >>= next') u result :=
  h

/-- Whether a group waits for a closer shows in the state. -/
lemma closesAwaited {kind : TokenKind} {next next' : Bool → Parser β}
    (h : Agree broken (next (kind.isCloser && u.awaited.contains kind))
      (next' (kind.isCloser && u.awaited.contains kind)) u result) :
    Agree broken (Parser.closesAwaited kind >>= next) (Parser.closesAwaited kind >>= next') u result :=
  h

end Agree

/-! ## Calls further on -/

namespace Reading

/-- What the arguments of a call must be like. -/
def Fits : Reading α → ParserState → Prop
  | elements _ mode closer _, _ => ReadsAtoms mode ∧ closer.isCloser
  | level groups, s => s.lexis.Affords groups
  | binary ops tighter _, s => s.lexis.Affords (ops :: tighter)
  | parameters closer _ _, _ => closer.isCloser
  | _, _ => True

/-- Whether a call skips tokens after a mistake. -/
def skips : Reading α → Bool
  | skipGroup _ | skipToSeparator _ => true
  | _ => false

/-- **Where a call may be made.** -/
structure May (call : Reading α) (s : ParserState) : Prop where
  settled : s.Settled
  shallow : s.depth ≤ maxNesting
  attends : call.skips = false → s.recovering = false
  fits : call.Fits s

/-- **How many calls there may be at a place** before a token is taken: the tighter the operators of
a level bind, the fewer. -/
def rank : Reading α → ParserState → Nat
  | value, _ | operand, _ => 1
  | level groups, _ => groups.length + 2
  | expression, s => s.visible.operators.priorityGroups.length + 3
  | elements _ _ _ _, s => s.visible.operators.priorityGroups.length + 4
  | _, _ => 0

/-- **A call below another one**: less text is ahead, or it is at the same place and closer to a
token. -/
structure Below (next : Reading β) (t : ParserState) (call : Reading α) (s : ParserState) : Prop where
  lexis : t.lexis = s.lexis
  nearer : t.here.rest.length < s.here.rest.length ∨ (t.here = s.here ∧ next.rank t < call.rank s)

/-- A bound that no call below a call exceeds. -/
def reach (call : Reading α) (s : ParserState) : Nat :=
  s.lexis.cost s.here + call.rank s

lemma rank_lt_pace {call : Reading α} (fits : call.Fits s) : call.rank s < s.lexis.pace := by
  have few : s.visible.operators.priorityGroups.length + 10 ≤ s.lexis.pace :=
    affords_priorityGroups s.lexis
  cases call <;> simp only [rank, Fits, Affords] at fits ⊢ <;> omega

lemma Below.reach_lt {next : Reading β} {call : Reading α} (below : next.Below t call s)
    (fits : next.Fits t) : next.reach t < call.reach s := by
  have few := rank_lt_pace fits
  rw [reach, reach]
  rw [below.lexis] at few ⊢
  rcases below.nearer with shorter | ⟨same, fewer⟩
  · have paid := s.lexis.cost_lt shorter
    omega
  · rw [same]
    omega

/-- Two ways to answer calls agree on the calls below a call, and pass on. -/
def AgreeBelow (calls calls' : ∀ {β : Type}, Reading β → Parser β) (call : Reading α)
    (s : ParserState) : Prop :=
  ∀ {β : Type} (next : Reading β) (t : ParserState), next.May t → next.Below t call s →
    Agree (BrokenOff t) (calls next) (calls' next) t fun _ u => Passed t u

/-- **A call descends** where its body rests on the calls below it and on no other: as long as these
do the same and pass on, so does the body. -/
def Descends (options : CompileOptions) (call : Reading α) (s : ParserState) : Prop :=
  ∀ calls calls' : ∀ {β : Type}, Reading β → Parser β, AgreeBelow calls calls' call s →
    Agree (BrokenOff s) (call.round options calls) (call.round options calls') s fun _ t => Passed s t

/-- **A bound that is large enough is not felt**, and is not used up. -/
theorem agree_within {options : CompileOptions}
    (descends : ∀ {α : Type} (call : Reading α) (s : ParserState), call.May s →
      call.Descends options s)
    {call : Reading α} (may : call.May s) {first second : Nat} (enough : call.reach s < first)
    (enough' : call.reach s < second) :
    Agree (BrokenOff s) (call.within options first) (call.within options second) s fun _ t => Passed s t := by
  -- By induction on the one bound; each call below has one step less to go.
  induction first generalizing α s second with
  | zero => exact absurd enough (Nat.not_lt_zero _)
  | succ first ih =>
    obtain ⟨second, rfl⟩ : ∃ n, second = n + 1 := ⟨second - 1, by omega⟩
    rw [within_succ, within_succ]
    refine descends call s may _ _ fun next t may below => ?_
    have nearer := below.reach_lt may.fits
    exact ih may (by omega) (by omega)

end Reading

end TreeLang.Parser
