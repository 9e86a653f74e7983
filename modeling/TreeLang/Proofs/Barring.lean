import TreeLang.Proofs.Growing
import TreeLang.Proofs.Trailing

/-!
# What is made, barring errors

Where no value can be read a node stands in, with a text of its own; so it does where the macros in
force refuse an invocation.  An error is recorded first in either case, since nothing is being skipped
when nodes are made.  So whatever trees have by the way they grow from the texts of a source, all nodes
have that are made of it, barring errors.

* `Barring` — something that holds unless an error was recorded, which counts where the text that
  stands in for what could not be read does not fit.
* `Attentive` — a parser that reports mistakes, in front of texts of some sort.
* `vouches_refuse`, `vouches_invoke`, `vouches_completeGroup`, … — the steps that make nodes.
* `Reading.Held`, `Reading.Gained` — the nodes that a call is given, and those that it makes.
* **`Reading.vouches_within`** — what all calls inside a statement make.
-/

namespace TreeLang

namespace ParserState

variable {s t : ParserState} {fits : String → Prop}

/-- How many errors were recorded. -/
def errors (s : ParserState) : Nat :=
  s.reports.countP Report.isError

lemma errors_le (reports : s.reports.toList <+: t.reports.toList) : s.errors ≤ t.errors := by
  rw [errors, errors, ← Array.countP_toList, ← Array.countP_toList]
  exact reports.sublist.countP_le

/-- **The texts ahead are of some sort**: the contents of all those on the trail that may be read as
values or as operands. -/
def Spoken (fits : String → Prop) (s : ParserState) : Prop :=
  ∀ place, s.lexis.Trail s.here place → ∀ mode ∈ [Mode.value, .operation],
    (s.lexis.read true mode place).token.kind.isText →
      fits (s.lexis.read true mode place).token.content

end ParserState

namespace Parser

variable {α β : Type} {s t u : ParserState} {fits : String → Prop} {good : Node → Prop} {base : Nat}
  {options : CompileOptions} {node left right : Node} {p q : Prop}

/-! ## Barring errors -/

/-- **What holds, barring errors** beyond a number of them.  Where the text that stands in for what
could not be read is one that fits, errors make no difference. -/
def Barring (fits : String → Prop) (base : Nat) (s : ParserState) (p : Prop) : Prop :=
  (¬ fits placeholder ∧ base < s.errors) ∨ p

namespace Barring

lemma of (holds : p) : Barring fits base s p := .inr holds

/-- More may be reported, and less may be said. -/
lemma later (barring : Barring fits base s p) (reports : s.reports.toList <+: t.reports.toList)
    (h : p → q) : Barring fits base t q :=
  barring.imp (fun barred => ⟨barred.1, Nat.lt_of_lt_of_le barred.2 (ParserState.errors_le reports)⟩) h

lemma both (first : Barring fits base s p) (second : Barring fits base s q) :
    Barring fits base s (p ∧ q) := by
  rcases first with barred | first
  · exact .inl barred
  · exact second.imp_right fun second => ⟨first, second⟩

/-- Behind an error a text may stand in. -/
lemma standIn (grown : Node.GrownFrom fits good) (told : base < s.errors) (origin : Origin) :
    Barring fits base s (good (.primitive placeholder origin)) := by
  by_cases fit : fits placeholder
  · exact .of (grown.text _ _ fit)
  · exact .inl ⟨fit, told⟩

end Barring

/-! ## A parser that reports mistakes -/

/-- **A parser that reports mistakes**, in front of texts of some sort.  At least `base` errors were
recorded; if they were no more, the macros in force carry a property. -/
structure Attentive (fits : String → Prop) (good : Node → Prop) (base : Nat) (s : ParserState) :
    Prop where
  settled : s.Settled
  attends : s.recovering = false
  base_le : base ≤ s.errors
  armed : Barring fits base s (s.visible.Carries good)
  spoken : s.Spoken fits

lemma Attentive.trails (attentive : Attentive fits good base s) (trails : Trails s t) :
    Attentive fits good base t where
  settled := trails.settled
  attends := trails.recovering.trans attentive.attends
  base_le := Nat.le_trans attentive.base_le (ParserState.errors_le trails.reports)
  armed := attentive.armed.later trails.reports fun carries => trails.visible ▸ carries
  spoken place trail := by
    rw [trails.lexis] at trail ⊢
    exact attentive.spoken place (trails.trail.trans trail)

/-- Marks are no part of the text. -/
lemma trails_remarked (settled : s.Settled) (change : TemplateScope → TemplateScope) :
    Trails s (s.remarked change) :=
  .change settled rfl rfl rfl rfl

/-- An error that is reported is recorded. -/
lemma told_note (attentive : Attentive fits good base s) (report : Report) (error : report.isError) :
    Leaves (note report) s fun _ t => Trails s t ∧ base < t.errors := by
  refine (Leaves.of_ends (trails_note attentive.settled report)).and fun _ t run => ?_
  rw [note_eq, attentive.attends] at run
  cases run
  show base < (s.reports.push report).countP Report.isError
  rw [Array.countP_push, if_pos error]
  exact Nat.lt_succ_of_le attentive.base_le

/-- **A step that makes nodes** of others goes on, and what it makes has a property, barring errors, if
that is so where neither the macros nor the others are barred. -/
lemma vouches_of_nodewise {step : Parser α} {made : α → Prop} (nodewise : Nodewise step)
    (attentive : Attentive fits good base s) (given : Barring fits base s p)
    (h : s.visible.Carries good → p → Leaves step s fun value t => Barring fits base t (made value)) :
    Leaves step s fun value t => Trails s t ∧ Barring fits base t (made value) := by
  intro value t run
  have trails := trails_of_nodewise nodewise attentive.settled value t run
  -- Where the macros or the others are barred, so is whatever is made of them.
  rcases attentive.armed.both given with barred | ⟨carries, holds⟩
  · exact ⟨trails, Barring.later (.inl barred) trails.reports False.elim⟩
  · exact ⟨trails, h carries holds value t run⟩

section

variable (grown : Node.GrownFrom fits good)

include grown

/-! ## Expansion -/

lemma vouches_refuse (attentive : Attentive fits good base s) (offset : Nat) {report : Report}
    (error : report.isError) :
    Leaves (refuse offset report) s fun made t => Trails s t ∧ Barring fits base t (good made) := by
  refine (told_note attentive (report.atOffset offset) error).bind fun _ t noted => ?_
  refine .changed (.pure ⟨noted.1.trans (.change noted.1.settled rfl rfl rfl rfl), ?_⟩)
  exact .standIn grown noted.2 _

/-- What stands where no value could be read. -/
lemma vouches_missing (attentive : Attentive fits good base s) (offset : Nat) (cause : Cause) :
    Leaves (do complain offset cause; placeholderAt offset) s fun made t =>
      Trails s t ∧ Barring fits base t (good made) := by
  refine (told_note attentive (Report.errorAt offset cause) rfl).bind fun _ t noted => ?_
  refine .changed (.pure ⟨noted.1.trans (.change noted.1.settled rfl rfl rfl rfl), ?_⟩)
  exact .standIn grown noted.2 _

/-- What a step of expansion does, given what it is offered. -/
abbrev Vouches (fits : String → Prop) (good : Node → Prop) (base : Nat)
    (expandOne : Node → MacroKind → Parser Node) : Prop :=
  ∀ s node kind, Attentive fits good base s → Barring fits base s (good node) →
    Leaves (expandOne node kind) s fun made t => Trails s t ∧ Barring fits base t (good made)

lemma vouches_expandDeferred {expandOne : Node → MacroKind → Parser Node}
    (vouches : Vouches fits good base expandOne) (span : Span) {tree : Node}
    (waiting : List DeferredInvocation) (attentive : Attentive fits good base s)
    (h : Barring fits base s (good tree)) :
    Leaves (expandDeferred expandOne span tree waiting) s fun made t =>
      Trails s t ∧ Barring fits base t (good made) := by
  induction waiting generalizing s tree with
  | nil => exact .pure ⟨.refl attentive.settled, h⟩
  | cons invocation rest ih =>
    have onward {t : ParserState} {next : Node} (trails : Trails s t)
        (h : Barring fits base t (good next)) :
        Leaves (expandDeferred expandOne span next rest) t fun made u =>
          Trails s u ∧ Barring fits base u (good made) :=
      (ih (attentive.trails trails) h).mono fun _ _ rest => ⟨trails.trans rest.1, rest.2⟩
    rw [expandDeferred, List.foldlM_cons]
    cases found : tree.get? invocation.path with
    | none => exact onward (.refl attentive.settled) h
    | some target =>
      have offered : Barring fits base s (good (target.withSpan span)) :=
        h.imp_right fun h => grown.inherited.withSpan span (grown.inherited.get? h found)
      dsimp only
      rw [bind_assoc]
      refine (vouches s _ invocation.kind attentive offered).bind fun expanded t step => ?_
      rw [pure_bind]
      -- What was expanded takes the place of the invocation, if there is still such a place.
      refine onward step.1 (((h.later step.1.reports id).both step.2).imp_right fun parts => ?_)
      cases put : tree.set? invocation.path expanded with
      | none => exact parts.1
      | some changed => exact grown.inherited.set? parts.1 parts.2 put

lemma vouches_useMacro {expandOne : Node → MacroKind → Parser Node}
    (vouches : Vouches fits good base expandOne) {definition : MacroDefinition}
    (carries : definition.Carries good) (attentive : Attentive fits good base s) (h : good node) :
    Leaves (useMacro expandOne definition node) s fun made t =>
      Trails s t ∧ Barring fits base t (good made) := by
  have warned (warnings : List Report) :
      Leaves (warnings.forM fun warning => note (warning.atOffset node.span.start)) s
        fun _ t => Trails s t :=
    trails_of_nodewise (.forM fun _ => .note _) attentive.settled
  refine .get ?_
  split
  · exact vouches_refuse grown attentive _ rfl
  dsimp only
  have usual := definition.usual_apply node
  have brings := carries.apply grown.inherited h
  generalize (definition.apply node).result = outcome at usual brings
  match outcome with
  | .error (.fault fault) => exact fun _ _ run => nomatch run
  | .error (.mistake report) =>
    refine (warned _).bind fun _ t trails => ?_
    exact (vouches_refuse grown (attentive.trails trails) _ (usual _ rfl).isError).mono
      fun _ _ refused => ⟨trails.trans refused.1, refused.2⟩
  | .ok result =>
    refine (warned _).bind fun _ t trails => ?_
    have result : Barring fits base t (good result) := .of (brings _ rfl)
    split
    · exact .pure ⟨trails, result⟩
    · have deeper : Trails s { t with depth := t.depth + 1 } :=
        trails.trans (.change trails.settled rfl rfl rfl rfl)
      refine .modify ((vouches_expandDeferred grown vouches _ _ (attentive.trails deeper) result).bind
        fun made u expanded => .modify (.pure ?_))
      exact ⟨deeper.trans (expanded.1.trans (.change expanded.1.settled rfl rfl rfl rfl)), expanded.2⟩

lemma vouches_invokeWithin (levels : Nat) :
    Vouches fits good base (invokeWithin levels) := by
  induction levels with
  | zero => exact fun s node kind _ _ _ _ run => nomatch run
  | succ levels ih =>
    intro s node kind attentive given
    refine vouches_of_nodewise (nodewise_invokeWithin _ _ _) attentive given fun carries h => .get ?_
    split
    · exact .pure (.of h)
    · rename_i found resolved
      exact (vouches_useMacro grown ih (carries found (MacroRegistry.mem_of_resolve resolved))
        attentive h).mono fun _ _ made => made.2
    · rename_i report resolved
      exact (vouches_refuse grown attentive _ (MacroRegistry.isError_of_resolve resolved)).mono
        fun _ _ made => made.2

/-- **What takes the place of an invocation.** -/
lemma vouches_invoke : Vouches fits good base invoke :=
  fun _ _ _ attentive given => .get (vouches_invokeWithin grown _ _ _ _ attentive given)

lemma vouches_expand : Vouches fits good base expand := by
  intro s node kind attentive given
  have invoked := vouches_invoke grown s node kind attentive given
  refine .get ?_
  split
  · split
    · exact .modify (.pure ⟨.change attentive.settled rfl rfl rfl rfl, given⟩)
    · exact invoked
  · exact invoked

/-! ## Nodes of every sort -/

/-- A token that becomes a node. -/
lemma vouches_primitive (attentive : Attentive fits good base s) {token : Token} (expands : Bool)
    (fit : fits token.content) :
    Leaves (primitive token expands) s fun made t => Trails s t ∧ Barring fits base t (good made) := by
  have numbered : Trails s s.numbered := .change attentive.settled rfl rfl rfl rfl
  have text : Barring fits base s.numbered
      (good (.primitive token.content ⟨s.lastId + 1, ⟨token.start, token.stop⟩⟩)) :=
    .of (grown.text _ _ fit)
  refine .changed ?_
  dsimp only
  split
  · exact .pure ⟨numbered, text⟩
  refine .get ?_
  split
  · exact .modify (.pure ⟨numbered.trans (trails_remarked numbered.settled _), text⟩)
  split
  · exact (vouches_invoke grown _ _ _ (attentive.trails numbered) text).mono fun _ _ made =>
      ⟨numbered.trans made.1, made.2⟩
  · exact .pure ⟨numbered, text⟩

/-- An operator with its operands. -/
lemma vouches_operatorNode (attentive : Attentive fits good base s) (op : OperatorDefinition)
    {operands : List Node} (span : Span)
    (given : Barring fits base s (∀ operand ∈ operands, good operand)) :
    Leaves (operatorNode op operands span) s fun made t =>
      Trails s t ∧ Barring fits base t (good made) := by
  have numbered : Trails s s.numbered := .change attentive.settled rfl rfl rfl rfl
  refine .changed ((vouches_expand grown s.numbered _ _ (attentive.trails numbered)
    (given.imp_right (grown.list _ _ _ _))).mono fun _ _ made => ⟨numbered.trans made.1, made.2⟩)

/-- The call that an accessor builds. -/
lemma vouches_accessorCall (attentive : Attentive fits good base s) (op : OperatorDefinition)
    (span : Span) (first : Barring fits base s (good left)) (second : Barring fits base s (good right)) :
    Leaves (accessorCall op left right span) s fun made t =>
      Trails s t ∧ Barring fits base t (good made) := by
  have values : Barring fits base s (∀ value ∈ callValues left right, good value) := by
    refine (first.both second).imp_right fun parts => ?_
    cases right with
    | primitive => exact List.forall_mem_singleton.mpr parts.1
    | object | list =>
      exact List.forall_mem_cons.mpr ⟨parts.1,
        List.forall_mem_singleton.mpr (grown.inherited.rename "" parts.2)⟩
  have erased (change : TemplateScope → TemplateScope) : Trails s (s.remarked change).numbered :=
    .change attentive.settled rfl rfl rfl rfl
  have offered {t : ParserState} (trails : Trails s t) :
      Leaves (expand (.list (op.nodeName ++ invokedName right) (callValues left right) false
        ⟨s.lastId + 1, span⟩) (.ofMember right)) t fun made u =>
          Trails s u ∧ Barring fits base u (good made) :=
    (vouches_expand grown t _ _ (attentive.trails trails)
      (values.later trails.reports (grown.list _ _ _ _))).mono fun _ _ made =>
        ⟨trails.trans made.1, made.2⟩
  intro made u run
  rw [accessorCall_eq] at run
  dsimp only at run
  split at run
  · exact offered ((erased _).trans (trails_remarked (erased _).settled _)) made u run
  · exact offered (erased _) made u run

/-- **A binary operator** between two operands. -/
lemma vouches_binaryNode (attentive : Attentive fits good base s) (op : OperatorDefinition)
    (first : Barring fits base s (good left)) (second : Barring fits base s (good right)) :
    Leaves (binaryNode op left right) s fun made t =>
      Trails s t ∧ Barring fits base t (good made) := by
  rw [binaryNode]
  split
  · exact vouches_accessorCall grown attentive op _ first second
  · refine vouches_operatorNode grown attentive op _ ((first.both second).imp_right fun parts => ?_)
    exact List.forall_mem_cons.mpr ⟨parts.1, List.forall_mem_singleton.mpr parts.2⟩

/-- The node of a group, or of the only element in it. -/
lemma vouches_completeGroup {content : GroupContent} (attentive : Attentive fits good base s)
    (name : Option Token) (start : Nat) (expands : Bool) (reference : Option Nat)
    (keyed : content.Keyed) (given : Barring fits base s (∀ node ∈ content.nodes, good node)) :
    Leaves (completeGroup options name start expands reference content) s fun made t =>
      Trails s t ∧ Barring fits base t (good made) := by
  have group (text : String) (id : Nat) (parts : ∀ node ∈ content.nodes, good node) :
      good (content.node text id start) := by
    cases content with
    | properties entries stop => exact grown.object _ _ _ keyed (List.forall_mem_map.mp parts)
    | values elements operation stop => exact grown.list _ _ _ _ parts
  have numbered : Trails s s.numbered := .change attentive.settled rfl rfl rfl rfl
  -- The node as it was built, whether the macros are asked or not.
  have offered {t : ParserState} (trails : Trails s t) (text : String) (id : Nat) :
      Leaves (if expands then expand (content.node text id start) content.kind
        else Pure.pure (content.node text id start)) t fun made u =>
          Trails s u ∧ Barring fits base u (good made) := by
    have node := given.later trails.reports (group text id)
    split
    · exact (vouches_expand grown t _ _ (attentive.trails trails) node).mono fun _ _ made =>
        ⟨trails.trans made.1, made.2⟩
    · exact .pure ⟨trails, node⟩
  rw [completeGroup.eq_def]
  dsimp only
  split
  · exact .pure ⟨.refl attentive.settled, given.imp_right (List.forall_mem_singleton.mp ·)⟩
  · refine .changed ?_
    split
    · exact .modify (offered (numbered.trans (trails_remarked numbered.settled _)) _ _)
    · exact offered numbered _ _

end

/-- A property, which is left out where its key is taken. -/
lemma vouches_addProperty {properties : List (String × Node)} (attentive : Attentive fits good base s)
    (key : Token) (given : Barring fits base s (∀ property ∈ properties, good property.2))
    (new : Barring fits base s (good node)) :
    Leaves (addProperty options key node properties) s fun found t =>
      Trails s t ∧ Barring fits base t (∀ property ∈ found, good property.2) := by
  refine vouches_of_nodewise (nodewise_addProperty options key node properties) attentive (given.both new)
    fun _ parts found t run => .of fun property member => ?_
  rw [addProperty_ok run, Node.insertNew] at member
  split at member
  · exact parts.1 property member
  · rcases List.mem_append.mp member with member | member
    · exact parts.1 property member
    · rw [List.mem_singleton.mp member]
      exact parts.2

/-! ## Calls -/

namespace Reading

/-- **The nodes that a call is given**, barring errors. -/
def Held (fits : String → Prop) (good : Node → Prop) (base : Nat) : Reading α → ParserState → Prop
  | properties _ known, s =>
    (known.map Prod.fst).Nodup ∧ Barring fits base s (∀ property ∈ known, good property.2)
  | elements _ _ _ known, s => Barring fits base s (∀ node ∈ known, good node)
  | binary _ _ left, s | postfixes _ left, s => Barring fits base s (good left)
  | parameters _ known _, s =>
    Barring fits base s (∀ parameter ∈ known, ∀ node ∈ parameter.fallback, good node)
  | value, _ | operand, _ | group .., _ | expression, _ | level _, _ => True
  | clauses _, _ | skipGroup _, _ | skipToSeparator _, _ => False

/-- **The nodes that a call makes**, barring errors. -/
def Gained (fits : String → Prop) (good : Node → Prop) (base : Nat) :
    Reading α → α → ParserState → Prop
  | value, node, t | operand, node, t | expression, node, t | level _, node, t | binary .., node, t
  | postfixes .., node, t => Barring fits base t (good node)
  | group .., found, t => Barring fits base t (∀ node ∈ found, good node)
  | properties .., found, t =>
    (found.1.map Prod.fst).Nodup ∧ Barring fits base t (∀ property ∈ found.1, good property.2)
  | elements .., found, t => Barring fits base t (∀ node ∈ found.1, good node)
  | parameters .., found, t => Barring fits base t
    (∀ known ∈ found, ∀ parameter ∈ known, ∀ node ∈ parameter.fallback, good node)
  | clauses _, _, _ | skipGroup _, _, _ | skipToSeparator _, _, _ => True

/-- **A step that reads for a call** goes on, and makes such nodes. -/
def Vouched (fits : String → Prop) (good : Node → Prop) (base : Nat) (call : Reading α)
    (step : Parser α) : Prop :=
  ∀ s, Attentive fits good base s → call.Held fits good base s →
    Leaves step s fun value t => Trails s t ∧ call.Gained fits good base value t

/-- Whether a name is that of a parameter shows in the state. -/
lemma leaves_headReference (head : Head) : Leaves head.reference s fun _ t => t = s := by
  rw [Head.reference]
  split
  · split
    · exact .get (.pure rfl)
    · exact .pure rfl
  · exact .pure rfl

variable {calls : ∀ {β : Type}, Reading β → Parser β}
  (grown : Node.GrownFrom fits good)
  (vouched : ∀ {β : Type} (call : Reading β), call.Vouched fits good base (calls call))

include grown vouched

/-- A value or an operand. -/
lemma vouches_atom (nameMode : Mode) {mode : Mode} (ofValues : mode ∈ [Mode.value, .operation])
    (missing : Token → Cause) (attentive : Attentive fits good base s) :
    Leaves (atomRound calls nameMode mode missing) s fun node t =>
      Trails s t ∧ Barring fits base t (good node) := by
  refine .changed ?_
  have first : Trails s { s with suppressed := false } :=
    .change attentive.settled rfl rfl rfl rfl
  refine (vouched (group nameMode !s.suppressed) _ (attentive.trails first) trivial).bind
    fun found t grouped => ?_
  obtain ⟨trails, gained⟩ := grouped
  have trails := first.trans trails
  cases found with
  | some node => exact .pure ⟨trails, gained.imp_right fun gained => gained node rfl⟩
  | none =>
    refine .after (trails_peek trails.settled true mode) fun token u settled looked => ?_
    obtain ⟨rfl, further, -⟩ := looked
    split
    · rename_i isText
      have fit := (attentive.trails trails).spoken t.here .here mode ofValues isText
      refine .after (trails_skipToken settled true mode) fun _ v settled taken => ?_
      have trails := trails.trans (further.trans taken)
      exact (vouches_primitive grown (attentive.trails trails) _ fit).mono fun _ _ made =>
        ⟨trails.trans made.1, made.2⟩
    · have trails := trails.trans further
      exact (vouches_missing grown (attentive.trails trails) _ _).mono fun _ _ made =>
        ⟨trails.trans made.1, made.2⟩

omit grown in
/-- The contents of a group, from its opener on. -/
lemma vouches_content (opener : TokenKind) (start : Nat) (attentive : Attentive fits good base s) :
    Leaves (contentRound calls opener start) s fun content t =>
      Trails s t ∧ content.Keyed ∧ Barring fits base t (∀ node ∈ content.nodes, good node) := by
  have none : Barring fits base s (∀ node ∈ ([] : List Node), good node) := .of (List.forall_mem_nil _)
  rw [contentRound]
  split
  · refine (vouched (properties start []) s attentive ⟨.nil, .of (List.forall_mem_nil _)⟩).bind fun found t read => ?_
    exact .pure ⟨read.1, read.2.1, read.2.2.imp_right List.forall_mem_map.mpr⟩
  set closer := opener.closer?.getD .rParen
  split
  · refine (vouched (elements start .value closer []) s attentive none).bind fun found t read => ?_
    exact .pure ⟨read.1, trivial, read.2⟩
  · refine (vouched (elements start .operation closer []) s attentive none).bind fun found t read => ?_
    exact .pure ⟨read.1, trivial, read.2⟩

/-- A group, if one is next. -/
lemma vouches_group (nameMode : Mode) (expands : Bool) (attentive : Attentive fits good base s) :
    Leaves (groupRound options calls nameMode expands) s fun found t =>
      Trails s t ∧ Barring fits base t (∀ node ∈ found, good node) := by
  refine .after (trails_groupHead? attentive.settled nameMode) fun found t settled trails => ?_
  match found with
  | none => exact .pure ⟨trails, .of nofun⟩
  | some (name, opener) =>
    have awaits : Trails t (t.awaiting (opener.kind.closer?.getD .rParen)) :=
      .change settled rfl rfl rfl rfl
    refine (leaves_headReference ⟨name, opener, expands⟩).bind ?_
    rintro reference _ rfl
    refine .modify ?_
    have trails := trails.trans awaits
    refine (vouches_content vouched opener.kind _ (attentive.trails trails)).bind
      fun content u inside => .modify ?_
    obtain ⟨further, keyed, gained⟩ := inside
    have settles : Trails u { u with awaited := u.awaited.tail } :=
      .change further.settled rfl rfl rfl rfl
    have trails := trails.trans (further.trans settles)
    refine (vouches_completeGroup grown (attentive.trails trails) name _ expands reference keyed
      (gained.later settles.reports id)).bind fun node v made => .pure ⟨trails.trans made.1, ?_⟩
    exact made.2.imp_right fun made => by
      rintro _ ⟨⟩
      exact made

omit grown in
/-- The elements of a list or an operation. -/
lemma vouches_elements {known : List Node} (start : Nat) (mode : Mode) (closer : TokenKind)
    (attentive : Attentive fits good base s)
    (held : Barring fits base s (∀ node ∈ known, good node)) :
    Leaves (elementsRound calls start mode closer known) s fun found t =>
      Trails s t ∧ Barring fits base t (∀ node ∈ found.1, good node) := by
  have all {t : ParserState} (trails : Trails s t) :
      Barring fits base t (∀ node ∈ known.reverse, good node) :=
    held.later trails.reports fun held node member => held node (List.mem_reverse.mp member)
  have again {u : ParserState} (trails : Trails s u) {known : List Node}
      (held : Barring fits base u (∀ node ∈ known, good node)) :
      Leaves (calls (elements start mode closer known)) u fun found v =>
        Trails s v ∧ Barring fits base v (∀ node ∈ found.1, good node) :=
    (vouched (elements start mode closer known) u (attentive.trails trails) held).mono
      fun _ _ rest => ⟨trails.trans rest.1, rest.2⟩
  refine .after (trails_peek attentive.settled true mode) fun token t settled looked => ?_
  obtain ⟨-, trails, -⟩ := looked
  split
  · exact .after (trails_skipToken settled true mode) fun _ u _ taken =>
      .pure ⟨trails.trans taken, all (trails.trans taken)⟩
  refine .closesAwaited ?_
  split
  · exact .after (trails_note settled _) fun _ u _ noted =>
      .pure ⟨trails.trans noted, all (trails.trans noted)⟩
  split
  · refine .after (trails_skipToken settled true mode) fun _ u settled taken => ?_
    refine .after (trails_note settled _) fun _ v settled noted => ?_
    have trails := trails.trans (taken.trans noted)
    exact again trails (held.later trails.reports id)
  · have element : Leaves (elementRound calls mode) t fun node u =>
        Trails t u ∧ Barring fits base u (good node) := by
      rw [elementRound]
      split
      · exact vouched expression t (attentive.trails trails) trivial
      · exact vouched value t (attentive.trails trails) trivial
    refine element.bind fun node u read => ?_
    have before := trails.trans read.1
    refine (leaves_separator read.1.settled (attentive.trails before).attends mode closer).bind
      fun _ v separated => ?_
    have trails := before.trans separated
    refine again trails (((held.later before.reports id).both read.2).later separated.reports
      fun parts => List.forall_mem_cons.mpr ⟨parts.2, parts.1⟩)

omit grown in
/-- The properties of an object. -/
lemma vouches_properties {known : List (String × Node)} (start : Nat)
    (attentive : Attentive fits good base s) (distinct : (known.map Prod.fst).Nodup)
    (held : Barring fits base s (∀ property ∈ known, good property.2)) :
    Leaves (propertiesRound options calls start known) s fun found t =>
      Trails s t ∧ (found.1.map Prod.fst).Nodup ∧
        Barring fits base t (∀ property ∈ found.1, good property.2) := by
  have again {u : ParserState} (trails : Trails s u) {known : List (String × Node)}
      (distinct : (known.map Prod.fst).Nodup)
      (held : Barring fits base u (∀ property ∈ known, good property.2)) :
      Leaves (calls (properties start known)) u fun found v =>
        Trails s v ∧ (found.1.map Prod.fst).Nodup ∧
          Barring fits base v (∀ property ∈ found.1, good property.2) :=
    (vouched (properties start known) u (attentive.trails trails) ⟨distinct, held⟩).mono
      fun _ _ rest => ⟨trails.trans rest.1, rest.2⟩
  have passed {u : ParserState} (trails : Trails s u) := again trails distinct
    (held.later trails.reports id)
  have recovered {u : ParserState} (trails : Trails s u) (offset : Nat) (cause : Cause) :
      Leaves (do complain offset cause; recover (some .rBrace); calls (properties start known)) u
        fun found v => Trails s v ∧ (found.1.map Prod.fst).Nodup ∧
          Barring fits base v (∀ property ∈ found.1, good property.2) := by
    refine .after (trails_note trails.settled _) fun _ v settled noted => ?_
    have trails := trails.trans noted
    exact (leaves_recover settled (attentive.trails trails).attends _).bind
      fun _ w skipped => passed (trails.trans skipped)
  refine .after (trails_peek attentive.settled true .key) fun token t settled looked => ?_
  obtain ⟨-, trails, -⟩ := looked
  split
  · refine .after (trails_skipToken settled true .key) fun _ u _ taken => .pure ?_
    have trails := trails.trans taken
    exact ⟨trails, distinct, held.later trails.reports id⟩
  refine .closesAwaited ?_
  split
  · refine .after (trails_note settled _) fun _ u _ noted => .pure ?_
    have trails := trails.trans noted
    exact ⟨trails, distinct, held.later trails.reports id⟩
  split
  · refine .after (trails_skipToken settled true .key) fun _ u settled taken => ?_
    refine .after (trails_note settled _) fun _ v settled noted => ?_
    exact passed (trails.trans (taken.trans noted))
  split
  · refine .after (trails_skipToken settled true .key) fun _ u settled taken => ?_
    refine .after (trails_peek settled false .key) fun colon v settled looked => ?_
    have trails := trails.trans (taken.trans looked.2.1)
    split
    · exact recovered trails _ _
    · refine .after (trails_skipToken settled false .key) fun _ w settled taken => ?_
      have trails := trails.trans taken
      refine (vouched value w (attentive.trails trails) trivial).bind fun node x read => ?_
      have trails := trails.trans read.1
      have added : Leaves (addProperty options token node known) x fun extended y =>
          Trails x y ∧ Barring fits base y (∀ property ∈ extended, good property.2) :=
        vouches_addProperty (attentive.trails trails) token (held.later trails.reports id) read.2
      refine (added.and fun extended y run => (addProperty_ok run ▸
        nodup_insertNew distinct _ _ : (extended.map Prod.fst).Nodup)).bind
          fun extended y added => ?_
      obtain ⟨⟨further, held⟩, distinct⟩ := added
      have trails := trails.trans further
      refine (leaves_separator trails.settled (attentive.trails trails).attends .key .rBrace).bind
        fun _ z separated => ?_
      exact again (trails.trans separated) distinct (held.later separated.reports id)
  · exact recovered trails _ _

/-- An expression of some groups of operators. -/
lemma vouches_level (groups : List PriorityGroup) (attentive : Attentive fits good base s) :
    Leaves (levelRound calls groups) s fun node t => Trails s t ∧ Barring fits base t (good node) := by
  cases groups with
  | nil => exact vouched operand s attentive trivial
  | cons ops tighter =>
    have inner {t : ParserState} (trails : Trails s t) (groups : List PriorityGroup) :
        Leaves (calls (level groups)) t fun node u =>
          Trails s u ∧ Barring fits base u (good node) :=
      (vouched (level groups) t (attentive.trails trails) trivial).mono
        fun _ _ read => ⟨trails.trans read.1, read.2⟩
    have refl := Trails.refl attentive.settled
    simp only [levelRound]
    cases ops.fixity with
    | binary =>
      refine (inner refl tighter).bind fun left t read => ?_
      exact (vouched (binary ops tighter left) t (attentive.trails read.1) read.2).mono
        fun _ _ rest => ⟨read.1.trans rest.1, rest.2⟩
    | postfixed =>
      refine (inner refl tighter).bind fun left t read => ?_
      exact (vouched (postfixes ops left) t (attentive.trails read.1) read.2).mono
        fun _ _ rest => ⟨read.1.trans rest.1, rest.2⟩
    | prefixed =>
      refine .position attentive.settled (.after (trails_operatorOf? attentive.settled ops true)
        fun found t _ trails => ?_)
      cases found with
      | none => exact inner trails tighter
      | some op =>
        refine (inner trails (ops :: tighter)).bind fun node u read => ?_
        exact (vouches_operatorNode grown (attentive.trails read.1) op _
          (read.2.imp_right List.forall_mem_singleton.mpr)).mono
            fun _ _ made => ⟨read.1.trans made.1, made.2⟩

/-- An operand and the binary operators behind it. -/
lemma vouches_binary (ops : PriorityGroup) (tighter : List PriorityGroup)
    (attentive : Attentive fits good base s) (held : Barring fits base s (good left)) :
    Leaves (binaryRound calls ops tighter left) s fun node t =>
      Trails s t ∧ Barring fits base t (good node) := by
  refine .after (trails_operatorOf? attentive.settled ops false) fun found t _ trails => ?_
  cases found with
  | none => exact .pure ⟨trails, held.later trails.reports id⟩
  | some op =>
    have makes {u : ParserState} {right : Node} (trails : Trails s u)
        (second : Barring fits base u (good right)) :
        Leaves (binaryNode op left right) u fun node v =>
          Trails s v ∧ Barring fits base v (good node) :=
      (vouches_binaryNode grown (attentive.trails trails) op (held.later trails.reports id)
        second).mono fun _ _ made => ⟨trails.trans made.1, made.2⟩
    have suppresses {u : ParserState} (suppressed : Bool) (trails : Trails s u) :
        Trails u (u.suppress suppressed) :=
      .change trails.settled rfl rfl rfl rfl
    dsimp only
    split
    · refine (vouched (level (ops :: tighter)) t (attentive.trails trails) trivial).bind
        fun right u read => ?_
      exact makes (trails.trans read.1) read.2
    · have trails := trails.trans (suppresses op.accessor trails)
      refine .modify ((vouched (level tighter) _ (attentive.trails trails) trivial).bind
        fun right u read => .modify ?_)
      have trails := trails.trans read.1
      have resumes := suppresses false trails
      refine (makes (trails.trans resumes) (read.2.later resumes.reports id)).bind
        fun node v made => ?_
      exact (vouched (binary ops tighter node) v (attentive.trails made.1) made.2).mono
        fun _ _ rest => ⟨made.1.trans rest.1, rest.2⟩

/-- An operand and the postfix operators behind it. -/
lemma vouches_postfixes (ops : PriorityGroup) (attentive : Attentive fits good base s)
    (held : Barring fits base s (good node)) :
    Leaves (postfixesRound calls ops node) s fun made t =>
      Trails s t ∧ Barring fits base t (good made) := by
  refine .after (trails_operatorOf? attentive.settled ops false) fun found t settled trails => ?_
  cases found with
  | none => exact .pure ⟨trails, held.later trails.reports id⟩
  | some op =>
    refine .position settled ((vouches_operatorNode grown (attentive.trails trails) op _
      (held.later trails.reports List.forall_mem_singleton.mpr)).bind fun made u built => ?_)
    have trails := trails.trans built.1
    exact (vouched (postfixes ops made) u (attentive.trails trails) built.2).mono
      fun _ _ rest => ⟨trails.trans rest.1, rest.2⟩

omit grown in
/-- The parameters of a macro. -/
lemma vouches_parameters {known : List Parameter} (closer : TokenKind) (complete : Bool)
    (attentive : Attentive fits good base s)
    (held : Barring fits base s (∀ parameter ∈ known, ∀ node ∈ parameter.fallback, good node)) :
    Leaves (parametersRound calls closer known complete) s fun found t =>
      Trails s t ∧ Barring fits base t
        (∀ known ∈ found, ∀ parameter ∈ known, ∀ node ∈ parameter.fallback, good node) := by
  have again {u : ParserState} (trails : Trails s u) {known : List Parameter} (complete : Bool)
      (held : Barring fits base u (∀ parameter ∈ known, ∀ node ∈ parameter.fallback, good node)) :
      Leaves (calls (parameters closer known complete)) u fun found v =>
        Trails s v ∧ Barring fits base v
          (∀ known ∈ found, ∀ parameter ∈ known, ∀ node ∈ parameter.fallback, good node) :=
    (vouched (parameters closer known complete) u (attentive.trails trails) held).mono
      fun _ _ rest => ⟨trails.trans rest.1, rest.2⟩
  refine .after (trails_peek attentive.settled true .parameter) fun token t settled looked => ?_
  obtain ⟨-, trails, -⟩ := looked
  split
  · refine .after (trails_skipToken settled true .parameter) fun _ u _ taken => .pure ?_
    have trails := trails.trans taken
    refine ⟨trails, held.later trails.reports fun held found member => ?_⟩
    cases complete with
    | true =>
      cases member
      exact held
    | false => cases member
  refine .closesAwaited ?_
  split
  · exact .after (trails_note settled _) fun _ u _ noted => .pure ⟨trails.trans noted, .of nofun⟩
  split
  · refine .after (trails_skipToken settled true .parameter) fun _ u settled taken => ?_
    refine .after (trails_note settled _) fun _ v settled noted => ?_
    have trails := trails.trans (taken.trans noted)
    exact again trails _ (held.later trails.reports id)
  split
  · refine .after (trails_skipToken settled true .parameter) fun _ u settled taken => ?_
    refine .after (trails_parameterType settled _) fun ⟨parameter, typed⟩ v settled typing => ?_
    have trails := trails.trans (taken.trans typing.1)
    have fallback : Leaves (fallbackRound calls parameter) v fun parameter w =>
        Trails v w ∧ Barring fits base w (∀ node ∈ parameter.fallback, good node) := by
      refine .after (trails_peek settled false .parameter) fun equals w settled looked => ?_
      split
      · refine .after (trails_skipToken settled false .parameter) fun _ x settled taken => ?_
        have further := looked.2.1.trans taken
        refine (vouched value x (attentive.trails (trails.trans further)) trivial).bind
          fun node y read => .pure ⟨further.trans read.1, read.2.imp_right fun read => ?_⟩
        rintro _ ⟨⟩
        exact read
      · have none : parameter.fallback = none := typing.2
        exact .pure ⟨looked.2.1, .of (by simp [none])⟩
    refine fallback.bind fun parameter w read => ?_
    have before := trails.trans read.1
    refine (leaves_parameterSeparator read.1.settled (attentive.trails before).attends closer
      parameter).bind fun separated x further => ?_
    refine again (before.trans further) _ (((held.later before.reports id).both read.2).later
      further.reports fun parts => ?_)
    exact List.forall_mem_append.mpr ⟨parts.1, List.forall_mem_singleton.mpr parts.2⟩
  · refine .after (trails_note settled _) fun _ u settled noted => ?_
    have trails := trails.trans noted
    refine (leaves_recover settled (attentive.trails trails).attends (some closer)).bind
      fun _ v skipped => ?_
    have trails := trails.trans skipped
    exact again trails _ (held.later trails.reports id)

/-- **A round makes such nodes**, as far as the calls in it do. -/
theorem vouches_round (call : Reading α) :
    call.Vouched fits good base (call.round options calls) := by
  intro s attentive held
  cases call with
  | value => exact vouches_atom grown vouched _ (by decide) _ attentive
  | operand => exact vouches_atom grown vouched _ (by decide) _ attentive
  | group nameMode expands => exact vouches_group grown vouched nameMode expands attentive
  | properties start known => exact vouches_properties vouched start attentive held.1 held.2
  | elements start mode closer known => exact vouches_elements vouched start mode closer attentive held
  | expression => exact .get (vouched (level _) s attentive trivial)
  | level groups => exact vouches_level grown vouched groups attentive
  | binary ops tighter left => exact vouches_binary grown vouched ops tighter attentive held
  | postfixes ops inner => exact vouches_postfixes grown vouched ops attentive held
  | parameters closer known complete =>
    exact vouches_parameters vouched closer complete attentive held
  | clauses | skipGroup | skipToSeparator => exact held.elim

omit vouched

/-- **Every call makes such nodes**, by induction on its bound. -/
theorem vouches_within (fuel : Nat) (call : Reading α) :
    call.Vouched fits good base (call.within options fuel) := by
  induction fuel generalizing α with
  | zero =>
    intro s _ _
    rw [within_zero]
    exact fun _ _ run => nomatch run
  | succ fuel ih =>
    rw [within_succ]
    exact vouches_round grown ih call

end Reading

end Parser

end TreeLang
