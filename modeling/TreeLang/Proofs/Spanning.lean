import Mathlib.Data.List.Chain
import TreeLang.Proofs.SelfContained
import TreeLang.Proofs.Travelling

/-!
# Where nodes stand

Every node knows which characters it was read from.  In a source that stands by itself these spans are
nested as the nodes are, whatever is wrong with the text: the span of a node lies within that of the
node around it.  Where nothing is wrong they are in order as well, each behind the one before.

A node that could not be read stands where the next token begins, behind blanks that the parser did not
take yet.  So a node may end behind the place of the parser, but not behind its next token; and no
further token is taken without that one.

* `Node.Spans`, `Node.InOrder` — what is to be shown of a node and its children.
* `Parser.Leaves` — what holds if a step comes to an end.
* `Lone`, `Strides` — a parser that has no macros, and how it goes on.
* `Lies`, `Row`, `Filled` — a node, some nodes and a group in front of a parser.
* `leaves_binaryNode`, `leaves_completeGroup`, … — the nodes that are made lie there.
-/

namespace TreeLang

/-! ## Spans -/

namespace Node

/-- The children of a node, in order. -/
def children : Node → List Node
  | .primitive _ _ => []
  | .object _ properties _ => properties.map Prod.snd
  | .list _ values _ _ => values

/-- **A node spans a part of a text** of a length, and its children lie within. -/
structure Spans (length : Nat) (node : Node) : Prop where
  start_le : node.span.start ≤ node.span.stop
  stop_le : node.span.stop ≤ length
  inside : ∀ child ∈ node.children,
    node.span.start ≤ child.span.start ∧ child.span.stop ≤ node.span.stop

/-- A node ends before another one begins. -/
def Precedes (first second : Node) : Prop :=
  first.span.stop ≤ second.span.start

/-- Each child ends before the next one begins. -/
def InOrder (node : Node) : Prop :=
  node.children.IsChain Precedes

lemma all_iff {good : Node → Prop} {node : Node} :
    node.All good ↔ good node ∧ ∀ child ∈ node.children, child.All good := by
  cases node with
  | primitive value origin => simp [All, children]
  | object name properties origin =>
    rw [All, allProperties_iff, children, List.forall_mem_map]
  | list name values operation origin =>
    rw [All, allValues_iff]
    simp [children]

/-- Another name changes neither the span nor the children. -/
lemma all_rename {good : Node → Prop} {node : Node} (name : String)
    (blind : good node → good (node.rename name)) (all : node.All good) : (node.rename name).All good := by
  rw [all_iff] at all ⊢
  refine ⟨blind all.1, ?_⟩
  cases node <;> exact all.2

@[simp] lemma span_rename (node : Node) (name : String) : (node.rename name).span = node.span := by
  cases node <;> rfl

@[simp] lemma children_rename (node : Node) (name : String) :
    (node.rename name).children = node.children := by
  cases node <;> rfl

end Node

namespace Parser

open TokenStream

variable {α β : Type} {s t u : ParserState} {length low : Nat} {node : Node} {nodes : List Node}
  {options : CompileOptions}

/-! ## Steps that may come to an end -/

/-- **What holds if a step comes to an end**, whether or not it does. -/
def Leaves (step : Parser α) (s : ParserState) (property : α → ParserState → Prop) : Prop :=
  ∀ value t, step s = .ok value t → property value t

namespace Leaves

variable {step : Parser α} {next : α → Parser β} {property weaker : α → ParserState → Prop}
  {result : β → ParserState → Prop}

lemma of_ends (ends : Ends step s property) : Leaves step s property := by
  intro value t run
  obtain ⟨_, _, known, -, holds⟩ := ends
  obtain ⟨rfl, rfl⟩ := ok_unique known run
  exact holds

lemma mono (leaves : Leaves step s property) (h : ∀ value t, property value t → weaker value t) :
    Leaves step s weaker :=
  fun value t run => h value t (leaves value t run)

lemma pure {value : α} (holds : property value s) : Leaves (Pure.pure value) s property := by
  rintro _ _ ⟨⟩
  exact holds

lemma bind (first : Leaves step s property)
    (second : ∀ value t, property value t → Leaves (next value) t result) :
    Leaves (step >>= next) s result := by
  intro value u run
  obtain ⟨middle, t, run, rest⟩ := bind_eq_ok.mp run
  exact second middle t (first middle t run) value u rest

/-- A step behind one that comes to an end. -/
lemma after (first : Ends step s property)
    (second : ∀ value t, t.Settled → property value t → Leaves (next value) t result) :
    Leaves (step >>= next) s result := by
  obtain ⟨value, t, run, settled, holds⟩ := first
  intro final u both
  rw [bind_ok run] at both
  exact second value t settled holds final u both

/-- A step that changes the state first. -/
lemma changed {change : ParserState → α × ParserState}
    (h : Leaves (next (change s).1) (change s).2 result) :
    Leaves (MonadStateOf.modifyGet change >>= next) s result :=
  h

lemma modify {change : ParserState → ParserState} {next : Unit → Parser β}
    (h : Leaves (next ()) (change s) result) :
    Leaves (MonadState.modifyGet (fun s => ((), change s)) >>= next) s result :=
  h

lemma get {next : ParserState → Parser β} (h : Leaves (next s) s result) :
    Leaves (MonadState.get >>= next) s result :=
  h

end Leaves

/-! ## A parser without macros -/

/-- Where the next token of a state begins. -/
abbrev front (s : ParserState) : Nat :=
  (s.here.begin true).offset

/-- **A parser that has no macros**, between two tokens of a text of a length, where mistakes are
reported. -/
structure Lone (length : Nat) (s : ParserState) : Prop where
  settled : s.Settled
  macros : s.visible.macros.definitions = []
  scope : s.scope = none
  attends : s.recovering = false
  total : s.here.offset + s.here.rest.length = length

/-- **How such a parser goes on** in its text. -/
structure Strides (s t : ParserState) : Prop where
  settled : t.Settled
  visible : t.visible = s.visible
  policy : t.tokens.policy = s.tokens.policy
  scope : t.scope = s.scope
  recovering : t.recovering = s.recovering
  leads : s.here.Leads t.here
  silent : t.reports = #[] → s.reports = #[]

namespace Strides

lemma refl (settled : s.Settled) : Strides s s :=
  ⟨settled, rfl, rfl, rfl, rfl, .refl _, id⟩

lemma trans (first : Strides s t) (second : Strides t u) : Strides s u :=
  ⟨second.settled, second.visible.trans first.visible, second.policy.trans first.policy,
    second.scope.trans first.scope, second.recovering.trans first.recovering,
    first.leads.trans second.leads, fun silent => first.silent (second.silent silent)⟩

lemma of_moves (settled : t.Settled) (moves : Moves s t) (leads : s.here.Leads t.here) :
    Strides s t := by
  refine ⟨settled, moves.visible, moves.policy, moves.scope, moves.recovering, leads, fun silent => ?_⟩
  have grown := moves.reports
  rw [silent] at grown
  exact Array.toList_eq_nil_iff.mp (List.prefix_nil.mp grown)

lemma offset_le (strides : Strides s t) : s.here.offset ≤ t.here.offset :=
  strides.leads.reaches.offset_le

lemma front_le (strides : Strides s t) : front s ≤ front t :=
  strides.leads.begins

/-- Where a parser stays it reads what it read before. -/
lemma reads_eq (strides : Strides s t) (stays : t.here = s.here) (skipBreaks : Bool) (mode : Mode) :
    t.reads skipBreaks mode = s.reads skipBreaks mode := by
  rw [ParserState.reads, ParserState.reads, stays, ParserState.lexis, ParserState.lexis,
    strides.visible, strides.policy]

/-- A change of what is in mind. -/
lemma change (settled : s.Settled) (tokens : t.tokens = s.tokens) (visible : t.visible = s.visible)
    (scope : t.scope = s.scope) (recovering : t.recovering = s.recovering)
    (reports : t.reports = s.reports) : Strides s t where
  settled := settled_of_same settled tokens (congrArg _ visible)
  visible := visible
  policy := congrArg TokenStream.policy tokens
  scope := scope
  recovering := recovering
  leads := .of_eq (congrArg TokenStream.anchor tokens.symm)
  silent := fun silent => reports ▸ silent

end Strides

/-- The next token begins here or further on. -/
lemma offset_le_front (s : ParserState) : s.here.offset ≤ front s :=
  (reaches_begin true s.here).offset_le

namespace Lone

lemma strides (lone : Lone length s) (strides : Strides s t) : Lone length t where
  settled := strides.settled
  macros := strides.visible ▸ lone.macros
  scope := strides.scope.trans lone.scope
  attends := strides.recovering.trans lone.attends
  total := strides.leads.reaches.total.trans lone.total

lemma front_le (lone : Lone length s) : front s ≤ length := by
  have total := (reaches_begin true s.here).total
  have here := lone.total
  show (s.here.begin true).offset ≤ length
  omega

end Lone

/-! ### Tokens -/

lemma covers_reads (s : ParserState) (skipBreaks : Bool) (mode : Mode) :
    (s.reads skipBreaks mode).Covers (s.here.begin skipBreaks) :=
  covers_lex ..

/-- A step that moves on by taking tokens. -/
lemma Travels.strides {step : Parser α} {value : α} (travels : Travels step) (settled : s.Settled)
    (run : step s = .ok value t) (settled' : t.Settled) (moves : Moves s t) : Strides s t := by
  have further := (travels s settled.coherent).2
  rw [run] at further
  exact .of_moves settled' moves further

lemma travels_uniform (options : CompileOptions) :
    Uniform options options fun step _ => Travels step :=
  (throughout_travels options (tableResolver [])).toUniform

lemma strides_peek (settled : s.Settled) (skipBreaks : Bool) (mode : Mode) :
    Ends (peek skipBreaks mode) s fun token t =>
      token = (s.reads skipBreaks mode).token ∧ Strides s t ∧ t.here = s.here := by
  obtain ⟨token, t, run, settled', same, moves, stays, -⟩ := ends_peek settled skipBreaks mode
  exact ⟨token, t, run, settled', same, .of_moves settled' moves (.of_eq stays.symm), stays⟩

lemma strides_skipToken (settled : s.Settled) (skipBreaks : Bool) (mode : Mode) :
    Ends (skipToken skipBreaks mode) s fun _ t =>
      Strides s t ∧ t.here = (s.reads skipBreaks mode).after := by
  obtain ⟨_, t, run, settled', moves, place, -⟩ := ends_skipToken settled skipBreaks mode
  exact ⟨_, t, run, settled', .of_moves settled' moves (place ▸ .lex ..), place⟩

lemma strides_note (settled : s.Settled) (report : Report) :
    Ends (note report) s fun _ t =>
      Strides s t ∧ t.here = s.here ∧ (s.recovering = false → t.reports ≠ #[]) := by
  obtain ⟨_, t, run, settled', moves, stays, told⟩ := ends_note settled report
  exact ⟨_, t, run, settled', .of_moves settled' moves (.of_eq stays.symm), stays, told⟩

lemma strides_recover (settled : s.Settled) (attends : s.recovering = false)
    (told : s.reports ≠ #[]) (closer : Option TokenKind) :
    Ends (recover closer) s fun _ t => Strides s t := by
  obtain ⟨_, t, run, settled', moves, -⟩ := ends_recover closer settled attends told
  exact ⟨_, t, run, settled',
    ((travels_uniform {}).recover closer).strides settled run settled' moves⟩

lemma strides_separator (settled : s.Settled) (attends : s.recovering = false) {mode : Mode}
    {closer : TokenKind} (closes : closer.isCloser) :
    Ends (separator mode closer) s fun _ t => Strides s t := by
  obtain ⟨_, t, run, settled', moves, -⟩ := ends_separator settled attends closes
  exact ⟨_, t, run, settled',
    ((travels_uniform {}).separator mode closer).strides settled run settled' moves⟩

/-- Behind a token that is no line break the parser stands behind where the token began. -/
lemma front_le_after {skipBreaks : Bool} {mode : Mode}
    (other : (s.reads skipBreaks mode).token.kind ≠ .lineBreak) :
    front s ≤ (s.reads skipBreaks mode).after.offset := by
  have same : s.reads true mode = s.reads skipBreaks mode := by
    cases skipBreaks with
    | true => rfl
    | false => exact lex_true other
  rw [← same]
  exact (covers_lex ..).reaches.offset_le

/-- An operator that was found stands behind where the next token began. -/
lemma strides_operatorOf? (settled : s.Settled) (group : PriorityGroup) (skipBreaks : Bool) :
    Ends (operatorOf? group skipBreaks) s fun found t =>
      Strides s t ∧ (found.isSome → front s ≤ t.here.offset) := by
  obtain ⟨found, t, run, settled', moves, place, -⟩ := ends_operatorOf? settled group skipBreaks
  refine ⟨found, t, run, settled',
    ((travels_uniform {}).operatorOf? group skipBreaks).strides settled run settled' moves,
    fun some => ?_⟩
  obtain ⟨op, rfl⟩ := Option.isSome_iff_exists.mp some
  rw [Lexis.operatorAt?, Option.map_some] at place
  split at place
  · rename_i kind
    obtain ⟨_, -, same⟩ := Option.map_eq_some_iff.mp place
    rw [← (Prod.mk.inj same).2]
    refine front_le_after fun breaks => ?_
    rw [breaks] at kind
    cases kind
  · cases place

/-- The head of a group stands between where the parser was and where it goes on. -/
lemma strides_groupHead? (settled : s.Settled) (mode : Mode) :
    Ends (groupHead? mode) s fun found t => Strides s t ∧
      ∀ name opener, found = some (name, opener) →
        s.here.offset ≤ (name.map Token.start).getD opener.start ∧
          (name.map Token.start).getD opener.start ≤ t.here.offset := by
  obtain ⟨found, t, run, settled', moves, place, -⟩ := ends_groupHead? settled mode
  refine ⟨found, t, run, settled',
    ((travels_uniform {}).groupHead? mode).strides settled run settled' moves, ?_⟩
  rintro name opener rfl
  have first := covers_reads s true mode
  have begins := offset_le_front s
  have stops := first.reaches.offset_le
  rw [Lexis.headAt?, Option.map_some] at place
  split at place
  · obtain ⟨rfl, rfl, after⟩ : none = name ∧ _ = opener ∧ _ = t.here := by simpa using place
    rw [← after, Option.map_none, Option.getD_none, first.start]
    exact ⟨begins, stops⟩
  split at place
  · dsimp only at place
    split at place
    · obtain ⟨rfl, rfl, after⟩ : some _ = name ∧ _ = opener ∧ _ = t.here := by simpa using place
      rw [← after, Option.map_some, Option.getD_some, first.start]
      exact ⟨begins, Nat.le_trans stops (reaches_lex ..).offset_le⟩
    · cases place
  · cases place

/-! ## Nodes in front of a parser -/

/-- Where a group ends. -/
def GroupContent.stop : GroupContent → Nat
  | .properties _ stop | .values _ _ stop => stop

/-- **A node lies in front of a parser**, from an offset on: it spans a part of the text up to the next
token.  As long as nothing was reported its parts are in order and nothing of it lies ahead. -/
structure Lies (length low : Nat) (node : Node) (t : ParserState) : Prop where
  spans : node.All (Node.Spans length)
  low : low ≤ node.span.start
  stop : node.span.stop ≤ front t
  ordered : t.reports = #[] → node.All Node.InOrder ∧ node.span.stop ≤ t.here.offset

/-- **Nodes that lie one behind the other.** -/
structure Row (length low : Nat) (nodes : List Node) (t : ParserState) : Prop where
  lies : ∀ node ∈ nodes, Lies length low node t
  ordered : t.reports = #[] → nodes.IsChain Node.Precedes

/-- **A group that ends at an offset**, with the nodes in it. -/
structure Filled (length start : Nat) (nodes : List Node) (stop : Nat) (t : ParserState) : Prop where
  spans : ∀ node ∈ nodes, node.All (Node.Spans length)
  inside : ∀ node ∈ nodes, start ≤ node.span.start ∧ node.span.stop ≤ stop
  start_le : start ≤ stop
  stop_le : stop ≤ front t
  ordered : t.reports = #[] →
    nodes.IsChain Node.Precedes ∧ (∀ node ∈ nodes, node.All Node.InOrder) ∧ stop ≤ t.here.offset

namespace Lies

lemma later (lies : Lies length low node s) (leads : s.here.Leads t.here)
    (silent : t.reports = #[] → s.reports = #[]) : Lies length low node t where
  spans := lies.spans
  low := lies.low
  stop := Nat.le_trans lies.stop leads.begins
  ordered := fun none =>
    ⟨(lies.ordered (silent none)).1,
      Nat.le_trans (lies.ordered (silent none)).2 leads.reaches.offset_le⟩

lemma strides (lies : Lies length low node s) (strides : Strides s t) : Lies length low node t :=
  lies.later strides.leads strides.silent

lemma lower {lowest : Nat} (lies : Lies length low node s) (le : lowest ≤ low) :
    Lies length lowest node s :=
  ⟨lies.spans, Nat.le_trans le lies.low, lies.stop, lies.ordered⟩

/-- From where it begins itself. -/
lemma itself (lies : Lies length low node s) : Lies length node.span.start node s :=
  ⟨lies.spans, Nat.le_refl _, lies.stop, lies.ordered⟩

lemma start_le (lies : Lies length low node s) : node.span.start ≤ node.span.stop :=
  (Node.all_iff.mp lies.spans).1.start_le

lemma rename (lies : Lies length low node t) (name : String) :
    Lies length low (node.rename name) t where
  spans := Node.all_rename name (fun good => ⟨by simpa using good.start_le, by simpa using good.stop_le,
    by simpa using good.inside⟩) lies.spans
  low := by simpa using lies.low
  stop := by simpa using lies.stop
  ordered silent := by
    refine ⟨Node.all_rename name (fun good => ?_) (lies.ordered silent).1,
      by simpa using (lies.ordered silent).2⟩
    simpa [Node.InOrder] using good

/-- A node without children. -/
lemma leaf (lone : Lone length t) (empty : node.children = []) (le : low ≤ node.span.start)
    (start_le : node.span.start ≤ node.span.stop) (stop : node.span.stop ≤ front t)
    (known : t.reports = #[] → node.span.stop ≤ t.here.offset) : Lies length low node t where
  spans := Node.all_iff.mpr ⟨⟨start_le, Nat.le_trans stop lone.front_le, by simp [empty]⟩,
    by simp [empty]⟩
  low := le
  stop := stop
  ordered := fun silent => ⟨Node.all_iff.mpr ⟨by simp [Node.InOrder, empty], by simp [empty]⟩,
    known silent⟩

end Lies

/-- The node of a group. -/
lemma Filled.lies {start stop : Nat} (filled : Filled length start nodes stop t)
    (lone : Lone length t) (children : node.children = nodes) (span : node.span = ⟨start, stop⟩)
    (le : low ≤ start) : Lies length low node t := by
  subst children
  obtain rfl : node.span.start = start := by rw [span]
  obtain rfl : node.span.stop = stop := by rw [span]
  refine ⟨Node.all_iff.mpr ⟨⟨filled.start_le, ?_, filled.inside⟩, filled.spans⟩, le, filled.stop_le,
    fun silent => ?_⟩
  · exact Nat.le_trans filled.stop_le lone.front_le
  · obtain ⟨chain, inner, known⟩ := filled.ordered silent
    exact ⟨Node.all_iff.mpr ⟨chain, inner⟩, known⟩

namespace Filled

variable {start stop : Nat} {left right : Node}

lemma one (lies : Lies length low node t) (le : start ≤ node.span.start)
    (behind : node.span.stop ≤ stop) (ahead : stop ≤ front t)
    (known : t.reports = #[] → stop ≤ t.here.offset) : Filled length start [node] stop t where
  spans := by simpa using lies.spans
  inside := by simpa using ⟨le, behind⟩
  start_le := Nat.le_trans le (Nat.le_trans lies.start_le behind)
  stop_le := ahead
  ordered silent := ⟨.singleton _, by simpa using (lies.ordered silent).1, known silent⟩

lemma two {middle : Nat} (first : Lies length low left t) (second : Lies length middle right t)
    (le : left.span.stop ≤ right.span.start) :
    Filled length left.span.start [left, right] right.span.stop t where
  spans := by simpa using ⟨first.spans, second.spans⟩
  inside := by
    have := first.start_le
    have := second.start_le
    simp only [List.mem_cons, List.not_mem_nil, or_false, forall_eq_or_imp, forall_eq]
    omega
  start_le := Nat.le_trans first.start_le (Nat.le_trans le second.start_le)
  stop_le := second.stop
  ordered silent := ⟨.cons_cons le (.singleton _),
    by simpa using ⟨(first.ordered silent).1, (second.ordered silent).1⟩, (second.ordered silent).2⟩

/-- One of the nodes. -/
lemma member (filled : Filled length start nodes stop t) (mem : node ∈ nodes) :
    Lies length start node t where
  spans := filled.spans node mem
  low := (filled.inside node mem).1
  stop := Nat.le_trans (filled.inside node mem).2 filled.stop_le
  ordered silent := ⟨(filled.ordered silent).2.1 node mem,
    Nat.le_trans (filled.inside node mem).2 (filled.ordered silent).2.2⟩

lemma strides (filled : Filled length start nodes stop s) (strides : Strides s t) :
    Filled length start nodes stop t where
  spans := filled.spans
  inside := filled.inside
  start_le := filled.start_le
  stop_le := Nat.le_trans filled.stop_le strides.front_le
  ordered silent := by
    obtain ⟨chain, inner, known⟩ := filled.ordered (strides.silent silent)
    exact ⟨chain, inner, Nat.le_trans known strides.offset_le⟩

end Filled

namespace Row

lemma nil (length low : Nat) (t : ParserState) : Row length low [] t :=
  ⟨nofun, fun _ => .nil⟩

lemma later (row : Row length low nodes s) (leads : s.here.Leads t.here)
    (silent : t.reports = #[] → s.reports = #[]) : Row length low nodes t :=
  ⟨fun node mem => (row.lies node mem).later leads silent, fun none => row.ordered (silent none)⟩

lemma strides (row : Row length low nodes s) (strides : Strides s t) : Row length low nodes t :=
  row.later strides.leads strides.silent

/-- One more node, which was read from the place of a state on. -/
lemma append (row : Row length low nodes s) (leads : s.here.Leads t.here)
    (silent : t.reports = #[] → s.reports = #[]) (le : low ≤ s.here.offset)
    (lies : Lies length s.here.offset node t) : Row length low (nodes ++ [node]) t where
  lies other mem := by
    rcases List.mem_append.mp mem with mem | mem
    · exact (row.lies other mem).later leads silent
    · rw [List.mem_singleton.mp mem]
      exact lies.lower le
  ordered none := by
    refine List.isChain_append.mpr ⟨row.ordered (silent none), .singleton _, fun last mem next is => ?_⟩
    obtain rfl : node = next := by simpa using is
    exact Nat.le_trans ((row.lies last (List.mem_of_getLast? mem)).ordered (silent none)).2 lies.low

/-- The end of a group. -/
lemma filled {stop : Nat} (row : Row length low nodes s) (strides : Strides s t)
    (le : low ≤ s.here.offset) (behind : front s ≤ stop) (ahead : stop ≤ front t)
    (known : t.reports = #[] → stop ≤ t.here.offset) : Filled length low nodes stop t where
  spans node mem := (row.lies node mem).spans
  inside node mem := ⟨(row.lies node mem).low, Nat.le_trans (row.lies node mem).stop behind⟩
  start_le := Nat.le_trans le (Nat.le_trans (offset_le_front s) behind)
  stop_le := ahead
  ordered none :=
    ⟨row.ordered (strides.silent none),
      fun node mem => ((row.lies node mem).ordered (strides.silent none)).1, known none⟩

variable {lexeme : Lexeme}

/-- A group that ends behind its closer. -/
lemma closed (row : Row length low nodes s) (strides : Strides s t) (le : low ≤ s.here.offset)
    (covers : lexeme.Covers (s.here.begin true)) (place : t.here = lexeme.after) :
    Filled length low nodes lexeme.token.stop t := by
  have behind : lexeme.token.stop = t.here.offset := by rw [place, covers.stop]
  refine row.filled strides le ?_ ?_ fun _ => Nat.le_of_eq behind
  · rw [covers.stop]
    exact covers.reaches.offset_le
  · rw [behind]
    exact offset_le_front t

/-- A group without a closer ends where the next token begins. -/
lemma unclosed (row : Row length low nodes s) (strides : Strides s t) (le : low ≤ s.here.offset)
    (covers : lexeme.Covers (s.here.begin true)) (told : t.reports ≠ #[]) :
    Filled length low nodes lexeme.token.start t := by
  refine row.filled strides le ?_ ?_ fun silent => absurd silent told
  · exact Nat.le_of_eq covers.start.symm
  · rw [covers.start]
    exact strides.front_le

end Row

/-! ## Making nodes -/

lemma leaves_invoke (lone : Lone length s) (node : Node) (kind : MacroKind) :
    Leaves (invoke node kind) s fun made t => made = node ∧ t = s := by
  have none : s.visible.macros.resolve (invokedName node) kind node = .ok none := by
    simp [MacroRegistry.resolve, MacroRegistry.group, lone.macros]
  show Leaves (invokeWithin (maxNesting - s.depth + 1) node kind) s _
  rw [invokeWithin]
  refine .get ?_
  rw [none]
  exact .pure ⟨rfl, rfl⟩

lemma leaves_expand (lone : Lone length s) (node : Node) (kind : MacroKind) :
    Leaves (expand node kind) s fun made t => made = node ∧ t = s := by
  rw [expand]
  refine .get ?_
  rw [lone.scope]
  exact leaves_invoke lone node kind

/-- Taking a number. -/
lemma strides_numbered (settled : s.Settled) : Strides s { s with lastId := s.lastId + 1 } :=
  .change settled rfl rfl rfl rfl rfl

lemma leaves_parameterIndex? (lone : Lone length s) (word : String) :
    Leaves (parameterIndex? word) s fun found t => found = none ∧ t = s := by
  refine .get ?_
  rw [lone.scope]
  exact .pure ⟨rfl, rfl⟩

/-- A token that becomes a node. -/
lemma leaves_primitive (lone : Lone length s) (token : Token) (expands : Bool) :
    Leaves (primitive token expands) s fun made t =>
      Strides s t ∧ t.here = s.here ∧ made.children = [] ∧ made.span = ⟨token.start, token.stop⟩ := by
  have numbered := strides_numbered lone.settled
  refine .changed ?_
  dsimp only
  split
  · exact .pure ⟨numbered, rfl, rfl, rfl⟩
  refine (leaves_parameterIndex? (lone.strides numbered) token.content).bind ?_
  rintro _ _ ⟨rfl, rfl⟩
  dsimp only
  split
  · refine (leaves_invoke (lone.strides numbered) _ _).mono ?_
    rintro _ _ ⟨rfl, rfl⟩
    exact ⟨numbered, rfl, rfl, rfl⟩
  · exact .pure ⟨numbered, rfl, rfl, rfl⟩

/-- An operator with its operands. -/
lemma leaves_operatorNode (lone : Lone length s) (op : OperatorDefinition) (operands : List Node)
    (span : Span) :
    Leaves (operatorNode op operands span) s fun made t =>
      Strides s t ∧ t.here = s.here ∧ made.children = operands ∧ made.span = span := by
  have numbered := strides_numbered lone.settled
  refine .changed ((leaves_expand (lone.strides numbered) _ _).mono ?_)
  rintro _ _ ⟨rfl, rfl⟩
  exact ⟨numbered, rfl, rfl, rfl⟩

/-- The call that an accessor builds, of its receiver and what is left of its member. -/
lemma leaves_accessorCall (lone : Lone length s) (op : OperatorDefinition) (receiver member : Node)
    (span : Span) :
    Leaves (accessorCall op receiver member span) s fun made t =>
      Strides s t ∧ t.here = s.here ∧ made.span = span ∧
        (made.children = [receiver] ∨ made.children = [receiver, member.rename ""]) := by
  have strides (change : TemplateScope → TemplateScope) :
      Strides s { s with scope := s.scope.map change, lastId := s.lastId + 1 } :=
    .change lone.settled rfl rfl (by simp [lone.scope]) rfl rfl
  refine .get ?_
  rw [lone.scope]
  refine .modify (.changed ((leaves_expand (lone.strides (strides _)) _ _).mono ?_))
  rintro _ _ ⟨rfl, rfl⟩
  refine ⟨strides _, rfl, rfl, ?_⟩
  cases member with
  | primitive => exact .inl rfl
  | object | list => exact .inr rfl

/-- **A binary operator** between two operands. -/
lemma leaves_binaryNode {middle : Nat} {left right : Node} (lone : Lone length s)
    (op : OperatorDefinition) (first : Lies length low left s) (second : Lies length middle right s)
    (le : left.span.stop ≤ right.span.start) :
    Leaves (binaryNode op left right) s fun made t =>
      Strides s t ∧ t.here = s.here ∧ Lies length left.span.start made t := by
  rw [binaryNode]
  split
  · refine (leaves_accessorCall lone op left right _).mono fun made t built => ?_
    obtain ⟨strides, stays, span, children⟩ := built
    have first := first.strides strides
    have second := second.strides strides
    refine ⟨strides, stays, ?_⟩
    rcases children with children | children
    · exact (Filled.one first (Nat.le_refl _) (Nat.le_trans le second.start_le) second.stop
        fun silent => (second.ordered silent).2).lies (lone.strides strides) children span
          (Nat.le_refl _)
    · have both := Filled.two first (second.rename "") (by simpa using le)
      rw [Node.span_rename] at both
      exact both.lies (lone.strides strides) children span (Nat.le_refl _)
  · refine (leaves_operatorNode lone op [left, right] _).mono fun made t built => ?_
    obtain ⟨strides, stays, children, span⟩ := built
    exact ⟨strides, stays, (Filled.two (first.strides strides) (second.strides strides) le).lies
      (lone.strides strides) children span (Nat.le_refl _)⟩

/-- What stands where no value could be read: a node without characters, and a report. -/
lemma leaves_missing (lone : Lone length s) (cause : Cause) (le : low ≤ front s) :
    Leaves (do complain (front s) cause; placeholderAt (front s)) s fun made t =>
      Strides s t ∧ Lies length low made t := by
  refine .after (strides_note lone.settled _) fun _ t settled noted => .changed (.pure ?_)
  obtain ⟨strides, stays, told⟩ := noted
  have strides := strides.trans (strides_numbered settled)
  exact ⟨strides, .leaf (lone.strides strides) rfl le (Nat.le_refl _) strides.front_le
    fun silent => absurd silent (told lone.attends)⟩

/-- A property, which is left out where its key is taken. -/
lemma leaves_addProperty {properties : List (String × Node)} (lone : Lone length s) (key : Token)
    (value : Node) (before : Row length low (properties.map Prod.snd) s)
    (extended : Row length low (properties.map Prod.snd ++ [value]) s) :
    Leaves (addProperty options key value properties) s fun found t =>
      Strides s t ∧ Row length low (found.map Prod.snd) t := by
  rw [addProperty]
  split
  · rename_i taken
    refine .after (strides_note lone.settled _) fun _ t settled noted => .modify (.pure ?_)
    have strides := noted.1.trans (.change (t := { t with scope := t.scope.map (·.drop value) })
      settled rfl rfl (by simp [(lone.strides noted.1).scope]) rfl rfl)
    rw [Node.insertNew, if_pos taken]
    exact ⟨strides, before.strides strides⟩
  · rename_i fresh
    refine .pure ⟨.refl lone.settled, ?_⟩
    rw [Node.insertNew, if_neg fresh, List.map_append]
    exact extended

/-- The node of a group, or of the only element in it. -/
lemma leaves_completeGroup {start : Nat} {content : GroupContent}
    (lone : Lone length s) (name : Option Token) (expands : Bool) (reference : Option Nat)
    (filled : Filled length start content.nodes content.stop s) (le : low ≤ start) :
    Leaves (completeGroup options name start expands reference content) s fun made t =>
      Strides s t ∧ Lies length low made t := by
  have node (text : String) (id : Nat) :
      (content.node text id start).children = content.nodes ∧
        (content.node text id start).span = ⟨start, content.stop⟩ := by
    cases content <;> exact ⟨rfl, rfl⟩
  have marked (change : TemplateScope → TemplateScope) :
      Strides s { s with lastId := s.lastId + 1, scope := s.scope.map change } :=
    .change lone.settled rfl rfl (by simp [lone.scope]) rfl rfl
  -- The node as it was built, whether the macros were asked or not.
  have offered {t : ParserState} (strides : Strides s t) (text : String) (id : Nat) :
      Leaves (if expands then expand (content.node text id start) content.kind
        else Pure.pure (content.node text id start)) t fun made u =>
          Strides s u ∧ Lies length low made u := by
    have lies : Lies length low (content.node text id start) t :=
      (filled.strides strides).lies (lone.strides strides) (node text id).1 (node text id).2 le
    split
    · refine (leaves_expand (lone.strides strides) _ _).mono ?_
      rintro _ _ ⟨rfl, rfl⟩
      exact ⟨strides, lies⟩
    · exact .pure ⟨strides, lies⟩
  rw [completeGroup.eq_def]
  dsimp only
  split
  · exact .pure ⟨.refl lone.settled, (filled.member (List.mem_singleton.mpr rfl)).lower le⟩
  · refine .changed ?_
    split
    · exact .modify (offered (marked _) _ _)
    · exact offered (strides_numbered lone.settled) _ _

end Parser

end TreeLang
