import Mathlib.Data.List.Nodup
import TreeLang.Proofs.Moving

/-!
# Any text is read

Whatever a text holds, reading a value from it comes to an end: the bound that the parser starts
with is never used up, the place it ends at is not before the place it began at, and every group
that was opened on the way is closed again.  If nothing was reported on the way, what was read is
what the rules of well-formed texts say.

While nodes are made something else may have to be kept up, about the marks of a template or the
shape of what is made.  What that is stays open here; whoever wants it says how each step that
makes a node keeps it up.

* `Upkeep` — a property of a state and of the nodes at hand that every step keeps up.
* `Done` — what can be said when something was read.
* **`readers`** — every function that reads values comes to an end.
-/

namespace TreeLang.Parser

open TreeLang.Lexis

variable {α : Type} {s t u : ParserState}

/-! ## What is kept up -/

/-- The nodes that a group holds. -/
def GroupContent.nodes : GroupContent → List Node
  | .properties entries _ => entries.map Prod.snd
  | .values elements _ _ => elements

/-- The keys in a group are distinct. -/
def GroupContent.Keyed : GroupContent → Prop
  | .properties entries _ => (entries.map Prod.fst).Nodup
  | .values _ _ _ => True

/-- A property under a new key leaves the keys distinct. -/
lemma nodup_insertNew {properties : List (String × Node)}
    (distinct : (properties.map Prod.fst).Nodup) (key : String) (value : Node) :
    ((Node.insertNew properties key value).map Prod.fst).Nodup := by
  rw [Node.insertNew]
  split
  · exact distinct
  · rename_i absent
    rw [List.map_append, List.map_singleton]
    refine List.nodup_append.mpr ⟨distinct, List.nodup_singleton _, fun old member new last => ?_⟩
    rintro rfl
    obtain ⟨entry, inside, rfl⟩ := List.mem_map.mp member
    have unfound : ¬ (∃ entry ∈ properties, entry.1 = key) := by
      simpa [Node.hasKey, Node.lookup] using absent
    exact unfound ⟨entry, inside, List.mem_singleton.mp last⟩

/-- What adding a property answers. -/
lemma addProperty_ok {options : CompileOptions} {key : Token} {value : Node}
    {properties extended : List (String × Node)}
    (added : addProperty options key value properties s = .ok extended t) :
    extended = Node.insertNew properties key.content value := by
  unfold addProperty at added
  split at added
  · obtain ⟨_, _, _, added⟩ := bind_eq_ok.mp added
    obtain ⟨_, _, _, added⟩ := bind_eq_ok.mp added
    cases added
    rfl
  · cases added
    rfl

/-- **Nothing that nodes are made from has changed**, but something may have been reported. -/
structure Unmade (s t : ParserState) : Prop where
  visible : t.visible = s.visible
  lastId : t.lastId = s.lastId
  scope : t.scope = s.scope
  depth : t.depth = s.depth
  reports : s.reports.toList <+: t.reports.toList

lemma unmade_of_moves (moves : Moves s t) : Unmade s t :=
  ⟨moves.visible, moves.lastId, moves.scope, moves.depth, moves.reports⟩

/-- A step makes a node, which is at hand from then on. -/
def Makes (holds : ParserState → List Node → Prop) (step : Parser Node) (s : ParserState)
    (held : List Node) : Prop :=
  ∃ node t, step s = .ok node t ∧ holds t (node :: held)

/-- **What every step keeps up** about a state and the nodes at hand.  A parameter that a group may
refer to is one of those that are `named`. -/
structure Upkeep (options : CompileOptions) (holds : ParserState → List Node → Prop)
    (named : Nat → Prop) : Prop where
  unmade : ∀ {s t held}, holds s held → Unmade s t → holds t held
  perm : ∀ {s held others}, holds s held → held.Perm others → holds s others
  parameter : ∀ {s held word index}, holds s held →
    (s.scope.bind fun scope => scope.parameters.findIdx? (· = word)) = some index → named index
  refusal : ∀ {s held} (offset : Nat) (cause : Cause), holds s held → s.recovering = false →
    Makes holds (do complain offset cause; placeholderAt offset) s held
  primitive : ∀ {s held} (token : Token) (expands : Bool), holds s held →
    Makes holds (primitive token expands) s held
  operatorNode : ∀ {s held} (op : OperatorDefinition) (operands : List Node) (span : Span),
    holds s (operands ++ held) → Makes holds (operatorNode op operands span) s held
  accessorCall : ∀ {s held} (op : OperatorDefinition) (receiver member : Node) (span : Span),
    holds s (receiver :: member :: held) →
      Makes holds (accessorCall op receiver member span) s held
  addProperty : ∀ {s held} (key : Token) (value : Node) (properties : List (String × Node)),
    holds s (value :: properties.map Prod.snd ++ held) → s.recovering = false →
      ∃ extended t, addProperty options key value properties s = .ok extended t ∧
        holds t (extended.map Prod.snd ++ held)
  completeGroup : ∀ {s held} (name : Option Token) (start : Nat) (expands : Bool)
    (reference : Option Nat) (content : GroupContent), (∀ index ∈ reference, named index) →
      content.Keyed → holds s (content.nodes ++ held) →
        Makes holds (completeGroup options name start expands reference content) s held

/-! ## Where something was read -/

/-- **Ready to read**: between two tokens, attending, with some nodes at hand. -/
structure Ready (holds : ParserState → List Node → Prop) (s : ParserState) (held : List Node) :
    Prop where
  settled : s.Settled
  attends : s.recovering = false
  holds : holds s held

/-- **Something was read**: the nodes at hand are these now, and if nothing was reported the text
was well formed up to the place that was reached. -/
structure Done (holds : ParserState → List Node → Prop) (s : ParserState) (held : List Node)
    (derived : Place → Prop) (t : ParserState) : Prop where
  passes : Passes s t
  rests : t.suppressed = false
  holds : holds t held
  derives : t.Clean → derived t.here

variable {options : CompileOptions} {holds : ParserState → List Node → Prop} {named : Nat → Prop}
  {held others : List Node} {fuel : Nat}

lemma Ready.moved (upkeep : Upkeep options holds named) (ready : Ready holds s held)
    (settled : t.Settled) (moves : Moves s t) : Ready holds t held :=
  ⟨settled, moves.recovering.trans ready.attends,
    upkeep.unmade ready.holds (unmade_of_moves moves)⟩

lemma Done.ready {derived : Place → Prop} (done : Done holds s held derived t)
    (attends : s.recovering = false) (settled : t.Settled) : Ready holds t held :=
  ⟨settled, done.passes.recovering.trans attends, done.holds⟩

/-- What is read behind something else. -/
lemma Done.behind {first second : Place → Prop} (passes : Passes s t)
    (done : Done holds t held first u) (derives : u.Clean → first u.here → second u.here) :
    Done holds s held second u :=
  ⟨passes.trans done.passes, done.rests, done.holds, fun clean => derives clean (done.derives clean)⟩

/-- What is read behind a mistake need not be well formed. -/
lemma Done.behind_mistake {first second : Place → Prop} (passes : Passes s t) (dirty : ¬ t.Clean)
    (done : Done holds t held first u) : Done holds s held second u :=
  done.behind passes fun clean => absurd (done.passes.clean clean) dirty

lemma passes_of_change (change : Change) (s : ParserState) : Passes s (change.apply s) where
  visible := rfl
  exported := rfl
  imports := rfl
  awaited := rfl
  recovering := rfl
  policy := rfl
  onward := .refl _
  reports := by simp [Change.apply]
  clean := by
    rintro ⟨reports, reported⟩
    have parts := congrArg Array.toList reports
    simp only [Change.apply, Array.toList_appendList] at parts
    exact ⟨Array.toList_eq_nil_iff.mp (List.append_eq_nil_iff.mp parts).1, reported⟩
  heard := by
    rintro (recovering | told | waiting | reported)
    · exact .inl recovering
    · refine .inr (.inl fun empty => told ?_)
      have parts := congrArg Array.toList empty
      simp only [Change.apply, Array.toList_appendList] at parts
      exact Array.toList_eq_nil_iff.mp (List.append_eq_nil_iff.mp parts).1
    · exact .inr (.inr (.inl waiting))
    · exact .inr (.inr (.inr reported))

/-- A step that makes nodes stays where it is. -/
lemma ends_of_nodewise {step : Parser α} {property : α → ParserState → Prop}
    (nodewise : Nodewise step) (settled : s.Settled)
    (made : ∃ value t, step s = .ok value t ∧ property value t) :
    Ends step s fun value t => Passes s t ∧ t.here = s.here ∧ t.suppressed = s.suppressed ∧
      property value t := by
  obtain ⟨value, t, hstep, h⟩ := made
  obtain ⟨change, rfl, -⟩ := nodewise.exists_change hstep
  exact ⟨value, _, hstep, ⟨settled.handed, settled.coherent⟩, passes_of_change change s, rfl, rfl, h⟩

/-- A node that stands in for a mistake. -/
lemma ends_refusal (upkeep : Upkeep options holds named) (ready : Ready holds s held)
    (rests : s.suppressed = false) (offset : Nat) (cause : Cause) (derived : Place → Prop) :
    Ends (do complain offset cause; placeholderAt offset) s fun node t =>
      Done holds s (node :: held) derived t := by
  have nodewise : Nodewise (do complain offset cause; placeholderAt offset) :=
    (Nodewise.note _).bind fun _ => nodewise_placeholderAt _
  obtain ⟨node, t, hstep, h⟩ := upkeep.refusal offset cause ready.holds ready.attends
  have dirty : ¬ t.Clean := by
    obtain ⟨_, u, noted, placed⟩ := bind_eq_ok.mp hstep
    obtain ⟨change, rfl, -⟩ := (nodewise_placeholderAt _).exists_change placed
    obtain ⟨_, v, noted', -, -, -, dirty⟩ := ends_complain ready.settled offset cause
    rw [noted] at noted'
    cases noted'
    exact fun clean => ParserState.not_clean (dirty ready.attends)
      ((passes_of_change change u).clean clean)
  have made : Ends _ s fun node t => Passes s t ∧ t.here = s.here ∧ t.suppressed = s.suppressed ∧
      holds t (node :: held) ∧ ¬ t.Clean :=
    ends_of_nodewise nodewise ready.settled ⟨node, t, hstep, h, dirty⟩
  refine made.mono ?_
  rintro value u ⟨passes, -, suppressed, h, dirty⟩
  exact ⟨passes, suppressed.trans rests, h, fun clean => absurd clean dirty⟩

/-! ## What a derivation begins with -/

lemma opening_of_elements {lexis : Lexis} {mode : Mode} {closer : TokenKind} {phrases : List Phrase}
    {stop : Nat} {p q : Place} (elements : lexis.Elements mode closer p phrases stop q) :
    (lexis.read true mode p).token.kind = closer ∨
      beginsElement (lexis.read true mode p).token.kind := by
  cases elements with
  | done closed _ => exact .inl closed
  | more _ element _ _ => exact .inr element.begins

lemma opening_of_entries {lexis : Lexis} {entries : List (Token × Phrase)} {stop : Nat}
    {p q : Place} (properties : lexis.Entries p entries stop q) :
    (lexis.read true .key p).token.kind = .rBrace ∨
      beginsElement (lexis.read true .key p).token.kind := by
  cases properties with
  | done closed _ => exact .inl closed
  | more text _ _ _ _ _ _ => exact .inr (by simp [beginsElement, text])

/-- Where a group ends although its closer is missing, no element begins. -/
lemma not_opening {closer : TokenKind} {mode : Mode}
    (stopping : Stopping s none (s.reads false mode).token.kind)
    (open_ : (s.reads false mode).token.kind ≠ closer) :
    ¬ ((s.reads true mode).token.kind = closer ∨
      beginsElement (s.reads true mode).token.kind) := by
  have kind : (s.reads false mode).token.kind = .endOfInput ∨
      (s.reads false mode).token.kind.isCloser = true := by
    rcases stopping with ends | closed | awaited
    · exact .inl ends
    · cases closed
    · exact .inr awaited.1
  have same : s.reads true mode = s.reads false mode := by
    refine lex_true fun breaks => ?_
    have breaks : (s.reads false mode).token.kind = .lineBreak := breaks
    rw [breaks] at kind
    rcases kind with kind | kind <;> cases kind
  rw [same]
  rintro (closed | begins)
  · exact open_ closed
  · rcases kind with kind | kind
    · rw [kind] at begins
      cases begins
    · cases h : (s.reads false mode).token.kind <;>
        simp_all [beginsElement, TokenKind.isOpener, TokenKind.isText, TokenKind.isCloser]

/-! ## The functions that read values -/

variable (upkeep : Upkeep options holds named)

/-- What each of the functions that read values comes to, with a bound that is large enough. -/
structure Readers (options : CompileOptions) (holds : ParserState → List Node → Prop)
    (fuel : Nat) : Prop where
  atom : ∀ {mode s held}, ReadsAtoms mode → Ready holds s held →
    s.lexis.cost s.here + 2 ≤ fuel →
    Ends (parseAtom options fuel mode) s fun node t => Done holds s (node :: held)
      (fun q => ∃ phrase, s.lexis.Atom mode (!s.suppressed) s.here phrase q) t
  group : ∀ {mode expands s held}, ReadsAtoms mode → Ready holds s held → s.suppressed = false →
    s.lexis.cost s.here + 1 ≤ fuel →
    Ends (parseGroup? options fuel mode.ofNames expands) s fun found t =>
      Done holds s (found.toList ++ held)
        (fun q => match found with
          | some _ => ∃ phrase, s.lexis.Atom mode expands s.here phrase q
          | none => s.lexis.headAt? mode.ofNames s.here = none ∧
            s.lexis.MeetsHead mode.ofNames s.here) t ∧
        (found = none → t.here = s.here)
  properties : ∀ {start properties s held}, Ready holds s (properties.map Prod.snd ++ held) →
    (properties.map Prod.fst).Nodup → s.suppressed = false →
    s.lexis.cost s.here + s.lexis.pace ≤ fuel →
    Ends (parseProperties options fuel start properties) s fun result t =>
      (result.1.map Prod.fst).Nodup ∧ Done holds s (result.1.map Prod.snd ++ held)
        (fun q => ∃ entries stop, s.lexis.Entries s.here entries stop q) t
  elements : ∀ {start mode closer elements s held}, ReadsAtoms mode → closer.isCloser →
    Ready holds s (elements ++ held) → s.suppressed = false →
    s.lexis.cost s.here + s.lexis.pace ≤ fuel →
    Ends (parseElements options fuel start mode closer elements) s fun result t =>
      Done holds s (result.1 ++ held)
        (fun q => ∃ phrases stop, s.lexis.Elements mode closer s.here phrases stop q) t
  expression : ∀ {s held}, Ready holds s held →
    s.lexis.cost s.here + s.lexis.operators.priorityGroups.length + 4 ≤ fuel →
    Ends (parseExpression options fuel) s fun node t => Done holds s (node :: held)
      (fun q => ∃ phrase,
        s.lexis.Level s.lexis.operators.priorityGroups (!s.suppressed) s.here phrase q) t
  level : ∀ {groups s held}, s.lexis.Affords groups → Ready holds s held →
    s.lexis.cost s.here + groups.length + 3 ≤ fuel →
    Ends (parseLevel options fuel groups) s fun node t => Done holds s (node :: held)
      (fun q => ∃ phrase, s.lexis.Level groups (!s.suppressed) s.here phrase q) t
  binary : ∀ {group tighter left s held}, s.lexis.Affords (group :: tighter) →
    Ready holds s (left :: held) → s.suppressed = false → s.lexis.cost s.here + 1 ≤ fuel →
    Ends (parseBinary options fuel group tighter left) s fun node t => Done holds s (node :: held)
      (fun q => ∀ first, ∃ phrase, s.lexis.Tail group tighter first s.here phrase q) t

include upkeep

/-- A word or a quoted text, or what stands in for one. -/
lemma ends_word {mode : Mode} (ready : Ready holds s held) (rests : s.suppressed = false)
    (expands : Bool) (cause : Token → Cause)
    (begun : s.Clean → s.lexis.headAt? mode.ofNames s.here = none ∧
      s.lexis.MeetsHead mode.ofNames s.here) :
    Ends (do
        let token ← peek true mode
        if token.kind.isText then do
          skipToken true mode
          primitive token expands
        else do
          complain token.start (cause token)
          placeholderAt token.start) s fun node t => Done holds s (node :: held)
      (fun q => ∃ phrase, s.lexis.Atom mode expands s.here phrase q) t := by
  refine (ends_peek ready.settled true mode).bind fun token t settled looked => ?_
  obtain ⟨rfl, moves, stays, clean⟩ := looked
  have ready := ready.moved upkeep settled moves
  have rests := moves.suppressed.trans rests
  have same : t.reads true mode = s.reads true mode := by
    rw [ParserState.reads, moves.lexis, stays]
  split
  · rename_i text
    refine (ends_skipToken settled true mode).bind fun _ u settled skipped => ?_
    obtain ⟨skipped, place, quiet⟩ := skipped
    rw [same] at place quiet
    have ready := ready.moved upkeep settled skipped
    have rests := skipped.suppressed.trans rests
    have moves := moves.trans skipped
    refine (ends_of_nodewise (nodewise_primitive _ _) settled
      (upkeep.primitive _ _ ready.holds)).mono fun node v made => ?_
    obtain ⟨passes, stays, suppressed, h⟩ := made
    refine ⟨moves.toPasses.trans passes, suppressed.trans rests, h, fun h => ?_⟩
    have h := passes.clean h
    rw [stays, place]
    obtain ⟨head, meets⟩ := begun (moves.clean h)
    exact ⟨_, .word head meets text (quiet h)⟩
  · exact (ends_refusal upkeep ready rests _ _ fun _ => False).mono fun _ _ done =>
      done.behind moves.toPasses fun _ h => h.elim

omit upkeep in
/-- What a group holds, by the bracket that opens it. -/
def Holds (lexis : Lexis) (opener : TokenKind) (p q : Place) : Prop :=
  (opener = .lBrace ∧ ∃ entries stop, lexis.Entries p entries stop q) ∨
    (opener = .lBracket ∧ ∃ phrases stop, lexis.Elements .value .rBracket p phrases stop q) ∨
    (opener = .lParen ∧ ∃ phrases stop, lexis.Elements .operation .rParen p phrases stop q)

omit upkeep in
/-- The contents of a group. -/
lemma ends_groupContent (readers : Readers options holds fuel) {opener : TokenKind}
    (opens : opener.isOpener) (start : Nat) (ready : Ready holds s held)
    (rests : s.suppressed = false) (enough : s.lexis.cost s.here + s.lexis.pace ≤ fuel) :
    Ends (groupContent options fuel opener start) s fun content t =>
      content.Keyed ∧ Done holds s (content.nodes ++ held) (Holds s.lexis opener s.here) t := by
  cases opener with
  | lBrace =>
    have inside : Ends (parseProperties options fuel start []) s _ :=
      readers.properties ready List.nodup_nil rests enough
    refine inside.bind fun result t settled done => .pure settled ⟨done.1, ?_⟩
    obtain ⟨-, done⟩ := done
    exact ⟨done.passes, done.rests, done.holds, fun h => .inl ⟨rfl, done.derives h⟩⟩
  | lBracket =>
    have inside : Ends (parseElements options fuel start .value .rBracket []) s _ :=
      readers.elements (.inl rfl) rfl ready rests enough
    refine inside.bind fun result t settled done => .pure settled ⟨trivial, ?_⟩
    exact ⟨done.passes, done.rests, done.holds, fun h => .inr (.inl ⟨rfl, done.derives h⟩)⟩
  | lParen =>
    have inside : Ends (parseElements options fuel start .operation .rParen []) s _ :=
      readers.elements (.inr rfl) rfl ready rests enough
    refine inside.bind fun result t settled done => .pure settled ⟨trivial, ?_⟩
    exact ⟨done.passes, done.rests, done.holds, fun h => .inr (.inr ⟨rfl, done.derives h⟩)⟩
  | _ => cases opens

/-- The parameter that a group refers to is one of those that are named. -/
lemma exists_reference (h : holds s held) (head : Head) :
    ∃ reference, head.reference s = .ok reference s ∧ ∀ index ∈ reference, named index := by
  rw [Head.reference]
  cases head.name with
  | none => exact ⟨none, rfl, by rintro _ ⟨⟩⟩
  | some name =>
    by_cases word : name.kind = .literal
    · simp only [word, if_true]
      exact ⟨_, rfl, fun index found => upkeep.parameter h found⟩
    · simp only [word, if_false]
      exact ⟨none, rfl, by rintro _ ⟨⟩⟩

/-- A group whose head was read. -/
lemma ends_groupBehind (readers : Readers options holds fuel) {head : Head}
    (opens : head.opener.kind.isOpener) (ready : Ready holds s held) (rests : s.suppressed = false)
    (enough : s.lexis.cost s.here + s.lexis.pace ≤ fuel) :
    Ends (groupBehind options fuel head) s fun node t => Done holds s (node :: held)
      (Holds s.lexis head.opener.kind s.here) t := by
  obtain ⟨reference, referred, isNamed⟩ := exists_reference upkeep ready.holds head
  set closer := head.opener.kind.closer?.getD .rParen with hcloser
  have waiting : Ready holds (s.awaiting closer) held :=
    ⟨⟨ready.settled.handed, ready.settled.coherent⟩, ready.attends,
      upkeep.unmade ready.holds ⟨rfl, rfl, rfl, rfl, List.prefix_refl _⟩⟩
  obtain ⟨content, t, inside, settled, keyed, done⟩ :=
    ends_groupContent readers opens head.start waiting rests enough
  set u : ParserState := { t with awaited := t.awaited.tail } with hu
  have closed : holds u (content.nodes ++ held) :=
    upkeep.unmade done.holds ⟨rfl, rfl, rfl, rfl, List.prefix_refl _⟩
  have settledU : u.Settled := ⟨settled.handed, settled.coherent⟩
  have passes : Passes s u :=
    { visible := done.passes.visible, exported := done.passes.exported,
      imports := done.passes.imports, awaited := by rw [hu, done.passes.awaited]; rfl,
      recovering := done.passes.recovering, policy := done.passes.policy,
      onward := done.passes.onward, reports := done.passes.reports, clean := done.passes.clean,
      heard := done.passes.heard }
  have step : groupBehind options fuel head s
      = completeGroup options head.name head.start head.expands reference content u := by
    rw [groupBehind, bind_ok referred, ← hcloser]
    have awaits : await closer s = .ok () (s.awaiting closer) := rfl
    rw [bind_ok awaits, bind_ok inside]
    rfl
  obtain ⟨node, v, made, settled, completed, stays, suppressed, h⟩ :=
    ends_of_nodewise (nodewise_completeGroup options head.name head.start head.expands reference
      content) settledU (upkeep.completeGroup _ _ _ _ _ isNamed keyed closed)
  refine ⟨node, v, step.trans made, settled, passes.trans completed,
    suppressed.trans done.rests, h, fun clean => ?_⟩
  rw [stays]
  exact done.derives (completed.clean clean)

/-- A group with the name in front of it, if one is next. -/
lemma Readers.group_succ (readers : Readers options holds fuel) {mode : Mode} {expands : Bool}
    (ready : Ready holds s held) (rests : s.suppressed = false)
    (enough : s.lexis.cost s.here ≤ fuel) :
    Ends (parseGroup? options (fuel + 1) mode.ofNames expands) s fun found t =>
      Done holds s (found.toList ++ held)
        (fun q => match found with
          | some _ => ∃ phrase, s.lexis.Atom mode expands s.here phrase q
          | none => s.lexis.headAt? mode.ofNames s.here = none ∧
            s.lexis.MeetsHead mode.ofNames s.here) t ∧
        (found = none → t.here = s.here) := by
  rw [parseGroup?_succ]
  refine (ends_groupHead? ready.settled mode.ofNames).bind fun found t settled looked => ?_
  obtain ⟨moves, head, stays, meets⟩ := looked
  have ready := ready.moved upkeep settled moves
  have rests := moves.suppressed.trans rests
  cases found with
  | none =>
    exact .pure settled
      ⟨⟨moves.toPasses, rests, ready.holds, fun h => ⟨head, meets h⟩⟩, fun _ => stays rfl⟩
  | some found =>
    obtain ⟨name, opener⟩ := found
    have head : s.lexis.headAt? mode.ofNames s.here = some (name, opener, t.here) := head
    have shorter := cost_lt s.lexis (headAt?_shortens head)
    have opens : opener.kind.isOpener = true := by
      simp only [headAt?] at head
      split_ifs at head with first text second <;> simp_all
    have behind : Ends (groupBehind options fuel ⟨name, opener, expands⟩) t _ :=
      ends_groupBehind upkeep readers opens ready rests (by rw [moves.lexis]; omega)
    refine behind.bind fun node u settled done => .pure settled ⟨?_, by rintro ⟨⟩⟩
    refine done.behind moves.toPasses fun clean inside => ?_
    rw [moves.lexis] at inside
    have meets := meets (done.passes.clean clean)
    rcases inside with ⟨kind, _, _, inside⟩ | ⟨kind, _, _, inside⟩ | ⟨kind, _, _, inside⟩
    · exact ⟨_, .object head meets kind inside⟩
    · exact ⟨_, .list head meets kind inside⟩
    · exact ⟨_, .operation head meets kind inside⟩

omit upkeep in
lemma passes_suppress (s : ParserState) (suppressed : Bool) : Passes s (s.suppress suppressed) :=
  ⟨rfl, rfl, rfl, rfl, rfl, rfl, .refl _, List.prefix_refl _, id, id⟩

lemma Ready.suppress (ready : Ready holds s held) (suppressed : Bool) :
    Ready holds (s.suppress suppressed) held :=
  ⟨⟨ready.settled.handed, ready.settled.coherent⟩, ready.attends,
    upkeep.unmade ready.holds ⟨rfl, rfl, rfl, rfl, List.prefix_refl _⟩⟩

/-- A value or an operand. -/
lemma Readers.atom_succ (readers : Readers options holds fuel) {mode : Mode}
    (reads : ReadsAtoms mode) (ready : Ready holds s held)
    (enough : s.lexis.cost s.here + 1 ≤ fuel) :
    Ends (parseAtom options (fuel + 1) mode) s fun node t => Done holds s (node :: held)
      (fun q => ∃ phrase, s.lexis.Atom mode (!s.suppressed) s.here phrase q) t := by
  have attending := ready.suppress upkeep false
  have passes := passes_suppress s false
  have asked : ∀ cause : Token → Cause,
      Ends (do
        match ← parseGroup? options fuel mode.ofNames (!s.suppressed) with
        | some node => return node
        | none =>
          let token ← peek true mode
          if token.kind.isText then do
            skipToken true mode
            primitive token !s.suppressed
          else do
            complain token.start (cause token)
            placeholderAt token.start) (s.suppress false) fun node t =>
        Done holds s (node :: held)
          (fun q => ∃ phrase, s.lexis.Atom mode (!s.suppressed) s.here phrase q) t := by
    intro cause
    refine (readers.group reads attending rfl enough).bind fun found t settled done => ?_
    obtain ⟨done, stays⟩ := done
    cases found with
    | some node => exact .pure settled (done.behind passes fun _ h => h)
    | none =>
      have here : t.here = s.here := stays rfl
      have lexis : t.lexis = s.lexis := done.passes.lexis
      have begun : t.Clean → t.lexis.headAt? mode.ofNames t.here = none ∧
          t.lexis.MeetsHead mode.ofNames t.here := by
        rw [here, lexis]
        exact done.derives
      refine (ends_word upkeep (done.ready ready.attends settled) done.rests _ cause begun).mono
        fun node u word => word.behind (passes.trans done.passes) fun _ h => ?_
      rwa [here, lexis] at h
  rcases reads with rfl | rfl
  · rw [parseAtom, if_neg (by decide), parseValue]
    exact asked .expectedValue
  · rw [parseAtom, if_pos rfl, parseOperand]
    exact asked .expectedOperand

/-! ### Expressions -/

/-- The node of a binary operator and its operands. -/
lemma ends_binaryNode (settled : s.Settled) (op : OperatorDefinition) {left right : Node}
    (h : holds s (left :: right :: held)) :
    Ends (binaryNode op left right) s fun node t => Passes s t ∧ t.here = s.here ∧
      t.suppressed = s.suppressed ∧ holds t (node :: held) := by
  refine ends_of_nodewise (nodewise_binaryNode op left right) settled ?_
  rw [binaryNode]
  split
  · exact upkeep.accessorCall op left right _ h
  · exact upkeep.operatorNode op [left, right] _ h

/-- The postfix operators behind an operand. -/
lemma ends_postfixes (fuel : Nat) {group : PriorityGroup} {operand : Node}
    (ready : Ready holds s (operand :: held)) (rests : s.suppressed = false)
    (enough : s.lexis.cost s.here + 1 ≤ fuel) :
    Ends (postfixes fuel group operand) s fun node t => Done holds s (node :: held)
      (fun q => ∀ first, ∃ phrase, s.lexis.Postfixes group first s.here phrase q) t := by
  induction fuel generalizing s operand with
  | zero => exact absurd enough (Nat.not_succ_le_zero _)
  | succ fuel ih =>
    rw [postfixes]
    refine (ends_operatorOf? ready.settled group false).bind fun found t settled looked => ?_
    obtain ⟨moves, operator, stays, clean⟩ := looked
    have ready := ready.moved upkeep settled moves
    have rests := moves.suppressed.trans rests
    cases found with
    | none =>
      refine .pure settled ⟨moves.toPasses, rests, ready.holds, fun h first => ?_⟩
      rw [stays rfl]
      exact ⟨_, .done operator (clean h)⟩
    | some op =>
      have operator : s.lexis.operatorAt? group false s.here = some (op, t.here) := operator
      have shorter := cost_lt s.lexis (operatorAt?_shortens operator)
      have pace := s.lexis.ten_le_pace
      refine .position settled ?_
      refine (ends_of_nodewise (nodewise_operatorNode _ _ _) settled
        (upkeep.operatorNode op [operand] _ ready.holds)).bind fun node u settled made => ?_
      obtain ⟨passes, here, suppressed, h⟩ := made
      have passed := moves.toPasses.trans passes
      have ready : Ready holds u (node :: held) :=
        ⟨settled, passes.recovering.trans ready.attends, h⟩
      refine (ih ready (suppressed.trans rests) ?_).mono fun _ v done =>
        done.behind passed fun clean' rest first => ?_
      · rw [passed.lexis, here]
        omega
      · obtain ⟨phrase, rest⟩ := rest (.postfixed op first t.here.offset)
        rw [passed.lexis, here] at rest
        exact ⟨phrase, .more operator (clean (passes.clean (done.passes.clean clean'))) rest⟩

/-- The binary operators behind an operand, with their right operands. -/
lemma Readers.binary_succ (readers : Readers options holds fuel) {group : PriorityGroup}
    {tighter : List PriorityGroup} {left : Node} (affords : s.lexis.Affords (group :: tighter))
    (ready : Ready holds s (left :: held)) (rests : s.suppressed = false)
    (enough : s.lexis.cost s.here ≤ fuel) :
    Ends (parseBinary options (fuel + 1) group tighter left) s fun node t =>
      Done holds s (node :: held)
        (fun q => ∀ first, ∃ phrase, s.lexis.Tail group tighter first s.here phrase q) t := by
  rw [parseBinary]
  refine (ends_operatorOf? ready.settled group false).bind fun found t settled looked => ?_
  obtain ⟨moves, operator, stays, clean⟩ := looked
  have ready := ready.moved upkeep settled moves
  have rests := moves.suppressed.trans rests
  cases found with
  | none =>
    refine .pure settled ⟨moves.toPasses, rests, ready.holds, fun h first => ?_⟩
    rw [stays rfl]
    exact ⟨_, .done operator (clean h)⟩
  | some op =>
    have operator : s.lexis.operatorAt? group false s.here = some (op, t.here) := operator
    have shorter := cost_lt s.lexis (operatorAt?_shortens operator)
    have few := affords
    rw [Affords, List.length_cons] at few
    have affordsT : t.lexis.Affords (group :: tighter) := by rwa [moves.lexis]
    dsimp only
    split
    · rename_i associativity
      have inner : Ends (parseLevel options fuel (group :: tighter)) t _ :=
        readers.level affordsT ready (by rw [moves.lexis, List.length_cons]; omega)
      refine inner.bind fun right u settled done => ?_
      have ready := done.ready ready.attends settled
      have passed := moves.toPasses.trans done.passes
      have both : holds u (left :: right :: held) :=
        upkeep.perm ready.holds (List.Perm.swap _ _ _)
      refine (ends_binaryNode upkeep settled op both).mono fun node v made => ?_
      obtain ⟨passes, here, suppressed, h⟩ := made
      refine ⟨passed.trans passes, suppressed.trans done.rests, h, fun h first => ?_⟩
      have h := passes.clean h
      obtain ⟨phrase, level⟩ := done.derives h
      rw [moves.lexis, rests, Bool.not_false] at level
      rw [here]
      exact ⟨_, .right operator (clean (done.passes.clean h)) associativity level⟩
    · rename_i associativity
      have inner : Ends (parseLevel options fuel tighter) (t.suppress op.accessor) _ :=
        readers.level affordsT.tail (ready.suppress upkeep op.accessor) (by
          show t.lexis.cost t.here + tighter.length + 3 ≤ fuel
          rw [moves.lexis]
          omega)
      refine .setSuppressed (inner.bind fun right u settled done => .setSuppressed ?_)
      have ready := (done.ready ready.attends settled).suppress upkeep false
      have le : s.lexis.cost u.here ≤ s.lexis.cost t.here := cost_le _ done.passes.onward.le
      have both : holds (u.suppress false) (left :: right :: held) :=
        upkeep.perm ready.holds (List.Perm.swap _ _ _)
      refine (ends_binaryNode upkeep ready.settled op both).bind fun node v settled made => ?_
      obtain ⟨passes, here, suppressed, h⟩ := made
      have here : v.here = u.here := here
      have passed := ((moves.toPasses.trans (passes_suppress t op.accessor)).trans
        done.passes).trans ((passes_suppress u false).trans passes)
      have ready : Ready holds v (node :: held) :=
        ⟨settled, passes.recovering.trans ready.attends, h⟩
      have others : Ends (parseBinary options fuel group tighter node) v _ :=
        readers.binary (by rwa [passed.lexis]) ready suppressed
          (by rw [passed.lexis, here]; omega)
      refine others.mono fun _ w rest => rest.behind passed fun clean' tail first => ?_
      have clean' : u.Clean := passes.clean (rest.passes.clean clean')
      obtain ⟨phrase, level⟩ := done.derives clean'
      have level : t.lexis.Level tighter (!op.accessor) t.here phrase u.here := level
      rw [moves.lexis] at level
      obtain ⟨whole, tail⟩ := tail (.binary op first phrase)
      rw [passed.lexis, here] at tail
      exact ⟨whole, .left operator (clean (done.passes.clean clean'))
        (by simpa using associativity) level tail⟩

/-- An expression whose operators belong to the given groups. -/
lemma Readers.level_succ (readers : Readers options holds fuel) {groups : List PriorityGroup}
    (affords : s.lexis.Affords groups) (ready : Ready holds s held)
    (enough : s.lexis.cost s.here + groups.length + 2 ≤ fuel) :
    Ends (parseLevel options (fuel + 1) groups) s fun node t => Done holds s (node :: held)
      (fun q => ∃ phrase, s.lexis.Level groups (!s.suppressed) s.here phrase q) t := by
  cases groups with
  | nil =>
    have operand : Ends (parseAtom options fuel .operation) s _ :=
      readers.atom (.inr rfl) ready (by simpa using enough)
    rw [parseLevel]
    refine operand.mono fun node t done => ⟨done.passes, done.rests, done.holds, fun h => ?_⟩
    obtain ⟨phrase, atom⟩ := done.derives h
    exact ⟨phrase, .operand atom⟩
  | cons group tighter =>
    rw [List.length_cons] at enough
    have below : Ends (parseLevel options fuel tighter) s _ :=
      readers.level affords.tail ready (by omega)
    cases fixity : group.fixity with
    | binary =>
      simp only [parseLevel, fixity]
      refine below.bind fun left t settled done => ?_
      have le := cost_le s.lexis done.passes.onward.le
      have others : Ends (parseBinary options fuel group tighter left) t _ :=
        readers.binary (by rwa [done.passes.lexis]) (done.ready ready.attends settled) done.rests
          (by rw [done.passes.lexis]; omega)
      refine others.mono fun node u rest => rest.behind done.passes fun clean tail => ?_
      obtain ⟨first, level⟩ := done.derives (rest.passes.clean clean)
      obtain ⟨phrase, tail⟩ := tail first
      rw [done.passes.lexis] at tail
      exact ⟨phrase, .binary fixity level tail⟩
    | postfixed =>
      simp only [parseLevel, fixity]
      refine below.bind fun operand t settled done => ?_
      have le := cost_le s.lexis done.passes.onward.le
      refine (ends_postfixes upkeep fuel (done.ready ready.attends settled) done.rests
        (by rw [done.passes.lexis]; omega)).mono fun node u rest =>
          rest.behind done.passes fun clean tail => ?_
      obtain ⟨first, level⟩ := done.derives (rest.passes.clean clean)
      obtain ⟨phrase, tail⟩ := tail first
      rw [done.passes.lexis] at tail
      exact ⟨phrase, .postfixed fixity level tail⟩
    | prefixed =>
      simp only [parseLevel, fixity]
      refine .position ready.settled ?_
      refine (ends_operatorOf? ready.settled group true).bind fun found t settled looked => ?_
      obtain ⟨moves, operator, stays, clean⟩ := looked
      have ready := ready.moved upkeep settled moves
      cases found with
      | none =>
        have here : t.here = s.here := stays rfl
        have operand : Ends (parseLevel options fuel tighter) t _ :=
          readers.level (by rw [moves.lexis]; exact affords.tail) ready
            (by rw [moves.lexis, here]; omega)
        refine operand.mono fun node u done => done.behind moves.toPasses fun h level => ?_
        obtain ⟨phrase, level⟩ := level
        rw [moves.lexis, moves.suppressed, here] at level
        exact ⟨phrase, .unprefixed fixity operator (clean (done.passes.clean h)) level⟩
      | some op =>
        have operator : s.lexis.operatorAt? group true s.here = some (op, t.here) := operator
        have shorter := cost_lt s.lexis (operatorAt?_shortens operator)
        have pace := s.lexis.ten_le_pace
        have inner : Ends (parseLevel options fuel (group :: tighter)) t _ :=
          readers.level (by rwa [moves.lexis]) ready
            (by rw [moves.lexis, List.length_cons]; omega)
        refine inner.bind fun operand u settled done => ?_
        have ready := done.ready ready.attends settled
        have passed := moves.toPasses.trans done.passes
        refine (ends_of_nodewise (nodewise_operatorNode _ _ _) settled
          (upkeep.operatorNode op [operand] _ ready.holds)).mono fun node v made => ?_
        obtain ⟨passes, here, suppressed, h⟩ := made
        refine ⟨passed.trans passes, suppressed.trans done.rests, h, fun h => ?_⟩
        have h := passes.clean h
        obtain ⟨phrase, level⟩ := done.derives h
        rw [moves.lexis, moves.suppressed] at level
        rw [here]
        exact ⟨_, .prefixed fixity operator (clean (done.passes.clean h)) level⟩

omit upkeep in
/-- An expression of the operators in force. -/
lemma Readers.expression_succ (readers : Readers options holds fuel) (ready : Ready holds s held)
    (enough : s.lexis.cost s.here + s.lexis.operators.priorityGroups.length + 3 ≤ fuel) :
    Ends (parseExpression options (fuel + 1)) s fun node t => Done holds s (node :: held)
      (fun q => ∃ phrase,
        s.lexis.Level s.lexis.operators.priorityGroups (!s.suppressed) s.here phrase q) t := by
  rw [parseExpression]
  exact .get (readers.level (affords_priorityGroups _) ready enough)

omit upkeep in
/-- An element of a list or an operation. -/
lemma ends_parseElement (readers : Readers options holds fuel) {mode : Mode}
    (reads : ReadsAtoms mode) (ready : Ready holds s held) (rests : s.suppressed = false)
    (enough : s.lexis.cost s.here + s.lexis.operators.priorityGroups.length + 4 ≤ fuel) :
    Ends (parseElement options fuel mode) s fun node t => Done holds s (node :: held)
      (fun q => ∃ phrase, s.lexis.Element mode s.here phrase q) t := by
  rcases reads with rfl | rfl
  · have value : Ends (parseAtom options fuel .value) s _ :=
      readers.atom (.inl rfl) ready (by omega)
    refine value.mono fun node t done => ⟨done.passes, done.rests, done.holds, fun h => ?_⟩
    obtain ⟨phrase, atom⟩ := done.derives h
    rw [rests, Bool.not_false] at atom
    exact ⟨phrase, .value atom⟩
  · have value : Ends (parseElement options fuel .operation) s _ := readers.expression ready enough
    refine value.mono fun node t done => ⟨done.passes, done.rests, done.holds, fun h => ?_⟩
    obtain ⟨phrase, level⟩ := done.derives h
    rw [rests, Bool.not_false] at level
    exact ⟨phrase, .expression level⟩

/-! ### The contents of groups -/

omit upkeep in
/-- Complaining of the text and ending there. -/
lemma ends_complain_return {value : α} {property : α → ParserState → Prop} (settled : s.Settled)
    (attends : s.recovering = false) (offset : Nat) (cause : Cause)
    (h : ∀ t, t.Settled → Moves s t → ¬ t.Clean → property value t) :
    Ends (do complain offset cause; return value) s property :=
  (ends_complain settled offset cause).bind fun _ t settled noted =>
    .pure settled (h t settled noted.1 (ParserState.not_clean (noted.2.2 attends)))

/-- An element, the separator behind it, and the elements behind that. -/
lemma Readers.ends_element (readers : Readers options holds fuel) {start : Nat} {mode : Mode}
    {closer : TokenKind} {elements : List Node} (reads : ReadsAtoms mode) (closes : closer.isCloser)
    (ready : Ready holds s (elements ++ held)) (rests : s.suppressed = false)
    (going : ¬ Stopping s (some closer) (s.reads true mode).token.kind)
    (enough : s.lexis.cost s.here + s.lexis.pace ≤ fuel + 1) :
    Ends (do
      let element ← parseElement options fuel mode
      separator mode closer
      parseElements options fuel start mode closer (element :: elements)) s fun result t =>
        Done holds s (result.1 ++ held) (fun q => ∃ phrase p r phrases stop,
          s.lexis.Element mode s.here phrase p ∧ s.lexis.Separated mode closer p r ∧
          s.lexis.Elements mode closer r phrases stop q) t := by
  have few := affords_priorityGroups s.lexis
  rw [Affords] at few
  have element := ends_parseElement readers reads ready rests (by omega)
  refine element.bind fun node t settled done => ?_
  have ready := done.ready ready.attends settled
  refine (ends_separator settled ready.attends closes).bind fun _ u settled separated => ?_
  obtain ⟨passed, separates, onward⟩ := separated
  have passes := done.passes.trans passed.toPasses
  -- Where the element took nothing, the separator meets the same token again.
  have shorter : u.here.rest.length < s.here.rest.length := by
    rcases done.passes.onward with same | shorter
    · rw [← same]
      have reread : t.reads true mode = s.reads true mode := by
        rw [ParserState.reads, done.passes.lexis, same]
      refine onward (by rcases reads with rfl | rfl <;> decide) ?_
      rwa [reread, Stopping, done.passes.awaited]
    · exact Nat.lt_of_le_of_lt passed.onward.le shorter
  have paid := s.lexis.cost_lt shorter
  have others : Ends (parseElements options fuel start mode closer (node :: elements)) u _ :=
    readers.elements reads closes (ready.moved upkeep settled passed)
      (passed.suppressed.trans done.rests) (by rw [passes.lexis]; omega)
  refine others.mono fun _ _ rest => rest.behind passes fun h behind => ?_
  obtain ⟨phrases, stop, behind⟩ := behind
  have h := rest.passes.clean h
  obtain ⟨phrase, element⟩ := done.derives (passed.clean h)
  rw [passes.lexis] at behind
  have lexis : t.lexis = s.lexis := done.passes.lexis
  rcases separates h with separated | ⟨here, open_, stopping⟩
  · rw [lexis] at separated
    exact ⟨phrase, t.here, u.here, phrases, stop, element, separated, behind⟩
  · rw [here] at behind
    have opening := opening_of_elements behind
    rw [← lexis] at opening
    exact absurd opening (not_opening stopping open_)

/-- The elements of a list or an operation up to its closer. -/
lemma Readers.elements_succ (readers : Readers options holds fuel) {start : Nat} {mode : Mode}
    {closer : TokenKind} {elements : List Node} (reads : ReadsAtoms mode) (closes : closer.isCloser)
    (ready : Ready holds s (elements ++ held)) (rests : s.suppressed = false)
    (enough : s.lexis.cost s.here + s.lexis.pace ≤ fuel + 1) :
    Ends (parseElements options (fuel + 1) start mode closer elements) s fun result t =>
      Done holds s (result.1 ++ held)
        (fun q => ∃ phrases stop, s.lexis.Elements mode closer s.here phrases stop q) t := by
  have pace := s.lexis.ten_le_pace
  have reversed : (elements ++ held).Perm (elements.reverse ++ held) :=
    (List.reverse_perm elements).symm.append_right held
  rw [parseElements_succ]
  refine (ends_peek ready.settled true mode).bind fun token t settled looked => ?_
  obtain ⟨rfl, moves, stays, clean⟩ := looked
  have ready := ready.moved upkeep settled moves
  have rests := moves.suppressed.trans rests
  have same : t.reads true mode = s.reads true mode := by
    rw [ParserState.reads, moves.lexis, stays]
  by_cases closed : (s.reads true mode).token.kind = closer
  · rw [if_pos closed]
    refine (ends_skipToken settled true mode).bind fun _ u settled skipped => .pure settled ?_
    obtain ⟨skipped, place, quiet⟩ := skipped
    rw [same] at place quiet
    refine ⟨moves.toPasses.trans skipped.toPasses, skipped.suppressed.trans rests,
      upkeep.perm (ready.moved upkeep settled skipped).holds reversed, fun h => ?_⟩
    rw [place]
    exact ⟨[], _, .done closed (quiet h)⟩
  rw [if_neg closed]
  refine .closesAwaited ?_
  by_cases ends : ((s.reads true mode).token.kind = .endOfInput ||
      ((s.reads true mode).token.kind.isCloser &&
        t.awaited.contains (s.reads true mode).token.kind)) = true
  · rw [if_pos ends]
    refine ends_complain_return settled ready.attends _ _ fun u settled noted dirty => ?_
    exact ⟨moves.toPasses.trans noted.toPasses, noted.suppressed.trans rests,
      upkeep.perm (ready.moved upkeep settled noted).holds reversed, fun h => absurd h dirty⟩
  rw [if_neg ends]
  have going : ¬ Stopping t (some closer) (t.reads true mode).token.kind := by
    rw [same]
    exact not_stopping_of_open closed ends
  have more : (s.reads true mode).token.kind ≠ .endOfInput := fun h => ends (by simp [h])
  by_cases comma : (s.reads true mode).token.kind = .comma
  · rw [if_pos comma]
    refine (ends_skipToken settled true mode).bind fun _ u settled skipped => ?_
    obtain ⟨skipped, place, -⟩ := skipped
    rw [same] at place
    refine (ends_complain settled _ _).bind fun _ v settled noted => ?_
    obtain ⟨noted, here, dirty⟩ := noted
    have passed := (moves.trans skipped).trans noted
    have shorter : v.here.rest.length < s.here.rest.length := by
      rw [here, place]
      exact s.reads_shortens more
    have paid := s.lexis.cost_lt shorter
    have others : Ends (parseElements options fuel start mode closer elements) v _ :=
      readers.elements reads closes (ready.moved upkeep settled (skipped.trans noted))
        ((skipped.trans noted).suppressed.trans rests) (by rw [passed.lexis]; omega)
    exact others.mono fun _ _ done => done.behind_mistake passed.toPasses
      (ParserState.not_clean (dirty (skipped.recovering.trans ready.attends)))
  rw [if_neg comma]
  have others : Ends (do
      let element ← parseElement options fuel mode
      separator mode closer
      parseElements options fuel start mode closer (element :: elements)) t _ :=
    readers.ends_element upkeep reads closes ready rests going (by rwa [moves.lexis, stays])
  refine others.mono fun _ u rest => rest.behind moves.toPasses fun h behind => ?_
  obtain ⟨phrase, p, r, phrases, stop, element, separated, behind⟩ := behind
  rw [moves.lexis] at separated behind
  rw [moves.lexis, stays] at element
  exact ⟨phrase :: phrases, stop, .more (clean (rest.passes.clean h)) element separated behind⟩

omit upkeep in
/-- Behind a mistake tokens are skipped, and parsing goes on. -/
lemma ends_recovering {next : Parser α} {property : α → ParserState → Prop} (settled : s.Settled)
    (attends : s.recovering = false) (offset : Nat) (cause : Cause) (closer : Option TokenKind)
    (h : ∀ t, t.Settled → Moves s t → ¬ t.Clean →
      (¬ Stopping s closer (s.reads false .word).token.kind →
        t.here.rest.length < s.here.rest.length) → Ends next t property) :
    Ends (do complain offset cause; recover closer; next) s property := by
  refine (ends_complain settled offset cause).bind fun _ t settled noted => ?_
  obtain ⟨noted, here, dirty⟩ := noted
  have told := dirty attends
  refine (ends_recover closer settled (noted.recovering.trans attends) told).bind
    fun _ u settled recovered => ?_
  obtain ⟨recovered, onward⟩ := recovered
  refine h u settled (noted.trans recovered) (fun h => ParserState.not_clean told (recovered.clean h))
    fun going => ?_
  rw [← here]
  refine onward ?_
  rwa [ParserState.reads, Stopping, noted.lexis, here, noted.awaited]

/-- Behind the colon of a property there is its value, which is added, and the properties behind it. -/
lemma Readers.ends_property (readers : Readers options holds fuel) {start : Nat} {key : Token}
    {properties : List (String × Node)} (ready : Ready holds s (properties.map Prod.snd ++ held))
    (distinct : (properties.map Prod.fst).Nodup) (rests : s.suppressed = false)
    (enough : s.lexis.cost s.here + s.lexis.pace ≤ fuel) :
    Ends (do
      let value ← parseAtom options fuel .value
      let extended ← addProperty options key value properties
      separator .key .rBrace
      parseProperties options fuel start extended) s fun result t =>
        (result.1.map Prod.fst).Nodup ∧ Done holds s (result.1.map Prod.snd ++ held)
          (fun q => ∃ phrase p r entries stop, s.lexis.Atom .value true s.here phrase p ∧
            s.lexis.Separated .key .rBrace p r ∧ s.lexis.Entries r entries stop q) t := by
  have pace := s.lexis.ten_le_pace
  have value : Ends (parseAtom options fuel .value) s _ := readers.atom (.inl rfl) ready (by omega)
  refine value.bind fun node t settled done => ?_
  have ready := done.ready ready.attends settled
  have added : ∃ extended u, addProperty options key node properties t = .ok extended u ∧
      holds u (extended.map Prod.snd ++ held) ∧ (extended.map Prod.fst).Nodup := by
    obtain ⟨extended, u, added, h⟩ := upkeep.addProperty _ node properties ready.holds ready.attends
    exact ⟨extended, u, added, h, addProperty_ok added ▸ nodup_insertNew distinct _ _⟩
  refine (ends_of_nodewise (nodewise_addProperty options _ node properties) settled added).bind
    fun extended u settled added => ?_
  obtain ⟨added, here, suppressed, h, distinct⟩ := added
  have ready : Ready holds u (extended.map Prod.snd ++ held) :=
    ⟨settled, added.recovering.trans ready.attends, h⟩
  refine (ends_separator settled ready.attends rfl).bind fun _ v settled separated => ?_
  obtain ⟨passed, separates, -⟩ := separated
  have passes := done.passes.trans (added.trans passed.toPasses)
  have le := cost_le s.lexis passes.onward.le
  have others : Ends (parseProperties options fuel start extended) v _ :=
    readers.properties (ready.moved upkeep settled passed) distinct
      (passed.suppressed.trans (suppressed.trans done.rests)) (by rw [passes.lexis]; omega)
  refine others.mono fun _ _ rest => ⟨rest.1, rest.2.behind passes fun h behind => ?_⟩
  obtain ⟨entries, stop, behind⟩ := behind
  have cleanV := rest.2.passes.clean h
  obtain ⟨phrase, atom⟩ := done.derives (added.clean (passed.clean cleanV))
  have lexis : u.lexis = s.lexis := added.lexis.trans done.passes.lexis
  rw [rests, Bool.not_false] at atom
  rw [passes.lexis] at behind
  rcases separates cleanV with separated | ⟨hereV, open_, stopping⟩
  · rw [lexis, here] at separated
    exact ⟨phrase, t.here, v.here, entries, stop, atom, separated, behind⟩
  · rw [hereV] at behind
    have opening := opening_of_entries behind
    rw [← lexis] at opening
    exact absurd opening (not_opening stopping open_)

/-- The properties of an object up to its closer. -/
lemma Readers.properties_succ (readers : Readers options holds fuel) {start : Nat}
    {properties : List (String × Node)} (ready : Ready holds s (properties.map Prod.snd ++ held))
    (distinct : (properties.map Prod.fst).Nodup) (rests : s.suppressed = false)
    (enough : s.lexis.cost s.here + s.lexis.pace ≤ fuel + 1) :
    Ends (parseProperties options (fuel + 1) start properties) s fun result t =>
      (result.1.map Prod.fst).Nodup ∧ Done holds s (result.1.map Prod.snd ++ held)
        (fun q => ∃ entries stop, s.lexis.Entries s.here entries stop q) t := by
  have pace := s.lexis.ten_le_pace
  rw [parseProperties]
  refine (ends_peek ready.settled true .key).bind fun token t settled looked => ?_
  obtain ⟨rfl, moves, stays, clean⟩ := looked
  have ready := ready.moved upkeep settled moves
  have rests := moves.suppressed.trans rests
  have same : t.reads true .key = s.reads true .key := by
    rw [ParserState.reads, moves.lexis, stays]
  by_cases closed : (s.reads true .key).token.kind = .rBrace
  · rw [if_pos closed]
    refine (ends_skipToken settled true .key).bind fun _ u settled skipped => .pure settled ?_
    obtain ⟨skipped, place, quiet⟩ := skipped
    rw [same] at place quiet
    refine ⟨distinct, moves.toPasses.trans skipped.toPasses, skipped.suppressed.trans rests,
      (ready.moved upkeep settled skipped).holds, fun h => ?_⟩
    rw [place]
    exact ⟨[], _, .done closed (quiet h)⟩
  rw [if_neg closed]
  refine .closesAwaited ?_
  by_cases ends : ((s.reads true .key).token.kind = .endOfInput ||
      ((s.reads true .key).token.kind.isCloser &&
        t.awaited.contains (s.reads true .key).token.kind)) = true
  · rw [if_pos ends]
    refine ends_complain_return settled ready.attends _ _ fun u settled noted dirty => ?_
    exact ⟨distinct, moves.toPasses.trans noted.toPasses, noted.suppressed.trans rests,
      (ready.moved upkeep settled noted).holds, fun h => absurd h dirty⟩
  rw [if_neg ends]
  have more : (s.reads true .key).token.kind ≠ .endOfInput := fun h => ends (by simp [h])
  -- Behind a mistake parsing goes on with the next property.
  have goesOn : ∀ {u : ParserState}, u.Settled → Moves t u → ¬ u.Clean →
      u.here.rest.length < s.here.rest.length →
      Ends (parseProperties options fuel start properties) u fun result v =>
        (result.1.map Prod.fst).Nodup ∧ Done holds s (result.1.map Prod.snd ++ held)
          (fun q => ∃ entries stop, s.lexis.Entries s.here entries stop q) v := by
    intro u settled moved dirty shorter
    have paid := s.lexis.cost_lt shorter
    have others : Ends (parseProperties options fuel start properties) u _ :=
      readers.properties (ready.moved upkeep settled moved) distinct (moved.suppressed.trans rests)
        (by rw [(moves.trans moved).lexis]; omega)
    exact others.mono fun _ _ done =>
      ⟨done.1, done.2.behind_mistake (moves.trans moved).toPasses dirty⟩
  by_cases comma : (s.reads true .key).token.kind = .comma
  · rw [if_pos comma]
    refine (ends_skipToken settled true .key).bind fun _ u settled skipped => ?_
    obtain ⟨skipped, place, -⟩ := skipped
    rw [same] at place
    refine (ends_complain settled _ _).bind fun _ v settled noted => ?_
    obtain ⟨noted, here, dirty⟩ := noted
    refine goesOn settled (skipped.trans noted)
      (ParserState.not_clean (dirty (skipped.recovering.trans ready.attends))) ?_
    rw [here, place]
    exact s.reads_shortens more
  rw [if_neg comma]
  by_cases text : (s.reads true .key).token.kind.isText = true
  · rw [if_pos text]
    refine (ends_skipToken settled true .key).bind fun _ u settled skipped => ?_
    obtain ⟨skipped, place, quiet⟩ := skipped
    rw [same] at place quiet
    have moved := moves.trans skipped
    have shorter : u.here.rest.length < s.here.rest.length := by
      rw [place]
      exact s.reads_shortens more
    refine (ends_peek settled false .key).bind fun token v settled looked => ?_
    obtain ⟨rfl, looked, stayed, cleanColon⟩ := looked
    have behindKey : u.reads false .key = s.lexis.behindKey s.here := by
      rw [ParserState.reads, moved.lexis, place]
      rfl
    rw [behindKey] at cleanColon
    have moved := moved.trans looked
    have ready := ready.moved upkeep settled (skipped.trans looked)
    have rests := (skipped.trans looked).suppressed.trans rests
    rw [← stayed] at shorter
    by_cases colon : (s.lexis.behindKey s.here).token.kind = .colon
    · rw [behindKey, if_neg (not_not_intro colon)]
      refine (ends_skipToken settled false .key).bind fun _ w settled skippedColon => ?_
      obtain ⟨skippedColon, placeColon, -⟩ := skippedColon
      have reread : v.reads false .key = s.lexis.behindKey s.here := by
        rw [← behindKey, ParserState.reads, looked.lexis, stayed]
      rw [reread] at placeColon
      have moved := moved.trans skippedColon
      have ready := ready.moved upkeep settled skippedColon
      have rests := skippedColon.suppressed.trans rests
      have paid := s.lexis.cost_lt (Nat.lt_of_le_of_lt skippedColon.onward.le shorter)
      have value : Ends (do
          let value ← parseAtom options fuel .value
          let extended ← addProperty options (s.reads true .key).token value properties
          separator .key .rBrace
          parseProperties options fuel start extended) w _ :=
        readers.ends_property upkeep ready distinct rests (by rw [moved.lexis]; omega)
      refine value.mono fun _ x rest => ⟨rest.1, rest.2.behind moved.toPasses fun h behind => ?_⟩
      obtain ⟨phrase, p, r, entries, stop, atom, separated, behind⟩ := behind
      have cleanV := skippedColon.clean (rest.2.passes.clean h)
      rw [moved.lexis, placeColon] at atom
      rw [moved.lexis] at separated behind
      exact ⟨_, stop, .more text (quiet (looked.clean cleanV)) colon (cleanColon cleanV) atom
        separated behind⟩
    · rw [behindKey, if_pos colon]
      exact ends_recovering settled ready.attends _ _ _ fun w settled moved dirty _ =>
        goesOn settled ((skipped.trans looked).trans moved) dirty
          (Nat.lt_of_le_of_lt moved.onward.le shorter)
  · rw [if_neg text]
    refine ends_recovering settled ready.attends _ _ _ fun u settled moved dirty onward =>
      goesOn settled moved dirty ?_
    have going : ¬ Stopping t (some .rBrace) (t.reads true .key).token.kind := by
      rw [same]
      exact not_stopping_of_open closed ends
    rw [← stays]
    exact onward (not_stopping rfl going fun _ => by rw [same]; simpa using text)

/-- **Every function that reads values comes to an end**: a bound that the text pays for is never
used up. -/
theorem readers (fuel : Nat) : Readers options holds fuel := by
  induction fuel with
  | zero =>
    -- No function is called without anything left of its bound.
    constructor
    · intro mode s held _ _ enough
      exact absurd enough (by omega)
    · intro mode expands s held _ _ _ enough
      exact absurd enough (by omega)
    · intro start properties s held _ _ _ enough
      exact absurd enough (by have := s.lexis.ten_le_pace; omega)
    · intro start mode closer elements s held _ _ _ _ enough
      exact absurd enough (by have := s.lexis.ten_le_pace; omega)
    · intro s held _ enough
      exact absurd enough (by omega)
    · intro groups s held _ _ enough
      exact absurd enough (by omega)
    · intro group tighter left s held _ _ _ enough
      exact absurd enough (by omega)
  | succ fuel ih =>
    exact {
      atom := fun reads ready enough => ih.atom_succ upkeep reads ready (by omega)
      group := fun _ ready rests enough => ih.group_succ upkeep ready rests (by omega)
      properties := fun ready distinct rests enough =>
        ih.properties_succ upkeep ready distinct rests enough
      elements := fun reads closes ready rests enough =>
        ih.elements_succ upkeep reads closes ready rests enough
      expression := fun ready enough => ih.expression_succ ready (by omega)
      level := fun affords ready enough => ih.level_succ upkeep affords ready (by omega)
      binary := fun affords ready rests enough =>
        ih.binary_succ upkeep affords ready rests (by omega) }

/-- **A value is read from any text.** -/
theorem ends_parseValue {fuel : Nat} (ready : Ready holds s held)
    (enough : s.lexis.cost s.here + 2 ≤ fuel) :
    Ends (parseValue options fuel) s fun node t => Done holds s (node :: held)
      (fun q => ∃ phrase, s.lexis.Atom .value (!s.suppressed) s.here phrase q) t :=
  (readers upkeep fuel).atom (.inl rfl) ready enough

end TreeLang.Parser
