import TreeLang.Proofs.Barring
import TreeLang.Proofs.Replacing

/-!
# Nodes that bear the marks

A mark is put on a node when the node is made, and the node is put into a larger one, handed on, or given
to a macro.  No mark is left behind on the way: at any time every mark is borne by one of the nodes at
hand, and by one that is what the mark says.  For a node with a mark in it waits instead of being given to
a macro, a call takes the mark of its member over, and with a property that is left out its marks are
forgotten.

Numbers may be shared with nodes that macros brought in, so a mark may be borne more than once.

* `Node.Bears`, **`Marks.Covered`** — a node bears a mark, and every mark is borne by some of the nodes.
* `Unmarking` — a step that puts on no mark, and takes none away.
* **`HandsOn`** — a step that makes nodes of others, and leaves no mark behind; whatever else is at hand.
* `handsOn_expand`, `handsOn_accessorCall`, `handsOn_completeGroup`, … — the steps that make nodes.
* **`Reading.handsOn_within`** — the calls inside a value.
* **`Marks.Covered.refer_of_build`** — where all references of a template were found, they are right.
-/

namespace TreeLang

/-! ## Bearing marks -/

namespace Node

variable {mark : Nat × Reference} {node : Node}

/-- **A node bears a mark**: it has the number, or a node below it has, and is what the mark says. -/
def Bears (mark : Nat × Reference) (node : Node) : Prop :=
  ∃ entry ∈ node.nodes, entry.2.id = mark.1 ∧ mark.2.target.Suits entry.2

lemma bears_iff : node.Bears mark ↔ (node.id = mark.1 ∧ mark.2.target.Suits node) ∨
    ∃ child ∈ node.children, child.Bears mark := by
  have all (node : Node) : node.Bears mark ↔
      ¬ node.All fun inner => ¬ (inner.id = mark.1 ∧ mark.2.target.Suits inner) := by
    constructor
    · rintro ⟨entry, member, bears⟩ none
      exact none.of_mem_nodes entry member bears
    · intro some
      by_contra none
      exact some (all_of_mem_nodes fun entry member bears => none ⟨entry, member, bears⟩)
  rw [all, all_iff, not_and_or, not_not]
  simp only [all, not_forall, exists_prop]

lemma Bears.mem_numbers (bears : node.Bears mark) : mark.1 ∈ node.numbers := by
  obtain ⟨entry, member, same, -⟩ := bears
  exact same ▸ List.mem_map_of_mem member

end Node

namespace Marks

variable {references : Marks Reference} {held others parts : List Node} {node : Node}

/-- **Every mark is borne** by some of the nodes at hand, and each number is marked once. -/
structure Covered (references : Marks Reference) (held : List Node) : Prop where
  once : references.keys.Nodup
  borne : ∀ mark ∈ references.entries, ∃ node ∈ held, node.Bears mark

namespace Covered

lemma empty (held : List Node) : (Marks.empty : Marks Reference).Covered held :=
  ⟨.nil, nofun⟩

/-- Fewer marks, each of which is borne by other nodes. -/
lemma keep (covered : references.Covered held) {keep : Nat × Reference → Bool}
    (h : ∀ mark, keep mark → ∀ node ∈ held, node.Bears mark → ∃ other ∈ others, other.Bears mark) :
    (Marks.mk (references.entries.filter keep)).Covered others where
  once := covered.once.sublist (List.filter_sublist.map _)
  borne mark member := by
    obtain ⟨marked, kept⟩ := List.mem_filter.mp member
    obtain ⟨node, inside, bears⟩ := covered.borne mark marked
    exact h mark kept node inside bears

lemma hand (covered : references.Covered held)
    (h : ∀ mark, ∀ node ∈ held, node.Bears mark → ∃ other ∈ others, other.Bears mark) :
    references.Covered others where
  once := covered.once
  borne mark member := by
    obtain ⟨node, inside, bears⟩ := covered.borne mark member
    exact h mark node inside bears

lemma mono (covered : references.Covered held) (subset : held ⊆ others) : references.Covered others :=
  covered.hand fun _ node member bears => ⟨node, subset member, bears⟩

/-- A node bears what its children bear. -/
lemma gather (covered : references.Covered (parts ++ held))
    (inside : ∀ part ∈ parts, part ∈ node.children) : references.Covered (node :: held) := by
  refine covered.hand fun mark part member bears => ?_
  rcases List.mem_append.mp member with member | member
  · exact ⟨node, List.mem_cons_self, Node.bears_iff.mpr (.inr ⟨part, inside part member, bears⟩)⟩
  · exact ⟨part, List.mem_cons_of_mem _ member, bears⟩

/-- A node without a mark may be left out. -/
lemma leave (covered : references.Covered (node :: held))
    (unmarked : ∀ number ∈ node.numbers, number ∉ references.keys) : references.Covered held where
  once := covered.once
  borne mark member := by
    obtain ⟨other, inside, bears⟩ := covered.borne mark member
    rcases List.mem_cons.mp inside with rfl | inside
    · exact absurd (List.mem_map_of_mem member) (unmarked _ bears.mem_numbers)
    · exact ⟨other, inside, bears⟩

/-- A new mark on a node. -/
lemma insert (covered : references.Covered (node :: held)) {reference : Reference}
    (suits : reference.target.Suits node) :
    (references.insert node.id reference).Covered (node :: held) where
  once := by
    rw [keys_insert]
    exact List.nodup_cons.mpr ⟨by simp, covered.once.filter _⟩
  borne mark member := by
    rcases List.mem_cons.mp member with rfl | member
    · exact ⟨node, List.mem_cons_self, Node.bears_iff.mpr (.inl ⟨rfl, suits⟩)⟩
    · exact covered.borne mark (List.mem_of_mem_filter member)

end Covered

end Marks

namespace Parser

variable {α β γ : Type} {options : CompileOptions} {s t : ParserState} {held others parts : List Node}
  {node left right : Node}

/-- **The marks of the template that is being read, if one is, are borne by the nodes at hand.** -/
def Covers (s : ParserState) (held : List Node) : Prop :=
  ∀ scope ∈ s.scope, scope.references.Covered held

lemma Covers.mono (covers : Covers s held) (subset : held ⊆ others) : Covers s others :=
  fun scope inside => (covers scope inside).mono subset

lemma Covers.swap (covers : Covers s (parts ++ held)) (subset : parts ⊆ others) :
    Covers s (others ++ held) :=
  covers.mono (List.append_subset.mpr
    ⟨List.subset_append_of_subset_left _ subset, List.subset_append_right _ _⟩)

lemma Covers.of_eq (covers : Covers s held) (scope : t.scope = s.scope) : Covers t held :=
  fun other inside => covers other (scope ▸ inside)

/-- Another set of marks. -/
lemma Covers.remarked (covers : Covers s held) {change : TemplateScope → TemplateScope}
    (h : ∀ scope, scope.references.Covered held → (change scope).references.Covered others) :
    Covers (s.remarked change) others := by
  intro scope inside
  obtain ⟨before, known, rfl⟩ := Option.map_eq_some_iff.mp inside
  exact h before (covers before known)

/-! ## Steps without marks -/

/-- **A step that puts on no mark, and takes none away**, if it comes to an end. -/
def Unmarking (step : Parser α) : Prop :=
  ∀ s, Leaves step s fun _ t => t.scope = s.scope

namespace Unmarking

lemma pure (value : α) : Unmarking (Pure.pure value : Parser α) :=
  fun _ => .pure rfl

lemma throw (fault : Fault) : Unmarking (MonadExcept.throw fault : Parser α) :=
  fun _ _ _ run => nomatch run

lemma bind {step : Parser α} {next : α → Parser β} (first : Unmarking step)
    (second : ∀ value, Unmarking (next value)) : Unmarking (step >>= next) :=
  fun s => (first s).bind fun value t same => (second value t).mono fun _ _ also => also.trans same

lemma ite {condition : Prop} [Decidable condition] {first second : Parser α} (h : Unmarking first)
    (h' : Unmarking second) : Unmarking (if condition then first else second) := by
  split <;> assumption

lemma modifyGet {change : ParserState → α × ParserState} (h : ∀ s, (change s).2.scope = s.scope) :
    Unmarking (MonadStateOf.modifyGet change) := by
  rintro s _ _ ⟨⟩
  exact h s

lemma get : Unmarking (MonadState.get : Parser ParserState) := by
  rintro s _ _ ⟨⟩
  rfl

lemma forM {items : List γ} {step : γ → Parser PUnit} (h : ∀ item, Unmarking (step item)) :
    Unmarking (items.forM step) := by
  induction items with
  | nil => exact .pure _
  | cons item rest ih => exact (h item).bind fun _ => ih

end Unmarking

lemma unmarking_note (report : Report) : Unmarking (note report) := by
  refine .modifyGet fun s => ?_
  dsimp only
  split <;> rfl

lemma unmarking_lookAhead (skipBreaks : Bool) (mode : Mode) : Unmarking (lookAhead skipBreaks mode) :=
  .modifyGet fun _ => rfl

lemma unmarking_rewind : Unmarking rewind := .modifyGet fun _ => rfl

lemma unmarking_commit : Unmarking commit := by
  refine .bind (.modifyGet fun _ => rfl) fun _ s _ _ run => ?_
  rw [noteLexical_eq] at run
  cases run
  rfl

lemma unmarking_peek (skipBreaks : Bool) (mode : Mode) : Unmarking (peek skipBreaks mode) :=
  (unmarking_lookAhead _ _).bind fun _ => unmarking_rewind.bind fun _ => .pure _

lemma unmarking_advance (skipBreaks : Bool) (mode : Mode) : Unmarking (advance skipBreaks mode) :=
  (unmarking_lookAhead _ _).bind fun _ => unmarking_commit.bind fun _ => .pure _

lemma unmarking_skipToken (skipBreaks : Bool) (mode : Mode) : Unmarking (skipToken skipBreaks mode) :=
  (unmarking_advance _ _).bind fun _ => .pure _

lemma unmarking_position : Unmarking position := Unmarking.get.bind fun _ => .pure _

lemma unmarking_closesAwaited (kind : TokenKind) : Unmarking (closesAwaited kind) :=
  Unmarking.get.bind fun _ => .pure _

lemma unmarking_freshId : Unmarking freshId := .modifyGet fun _ => rfl

lemma unmarking_placeholderAt (offset : Nat) : Unmarking (placeholderAt offset) :=
  unmarking_freshId.bind fun _ => .pure _

lemma unmarking_parameterIndex? (word : String) : Unmarking (parameterIndex? word) :=
  Unmarking.get.bind fun _ => .pure _

lemma unmarking_reference (head : Head) : Unmarking head.reference := by
  rw [Head.reference]
  split
  · exact .ite (unmarking_parameterIndex? _) (.pure _)
  · exact .pure _

lemma unmarking_skipGroup (fuel : Nat) (closer : Option TokenKind) :
    Unmarking (skipGroup fuel closer) := by
  induction fuel generalizing closer with
  | zero => exact .throw _
  | succ fuel ih =>
    rw [skipGroup]
    refine (unmarking_peek _ _).bind fun token => .ite (.pure _) ?_
    refine (unmarking_closesAwaited _).bind fun closes => .ite (.pure _) ?_
    refine (unmarking_skipToken _ _).bind fun _ => .ite (.pure _) (.ite ?_ (ih _))
    exact (ih _).bind fun _ => ih _

lemma unmarking_skipToSeparator (fuel : Nat) (closer : Option TokenKind) :
    Unmarking (skipToSeparator fuel closer) := by
  induction fuel with
  | zero => exact .throw _
  | succ fuel ih =>
    rw [skipToSeparator]
    refine (unmarking_peek _ _).bind fun token => .ite (.pure _) ?_
    refine (unmarking_closesAwaited _).bind fun closes => .ite (.pure _) ?_
    refine (unmarking_skipToken _ _).bind fun _ => .ite (.pure _) (.ite ?_ ih)
    exact (unmarking_skipGroup _ _).bind fun _ => ih

lemma unmarking_recover (closer : Option TokenKind) : Unmarking (recover closer) :=
  .bind (.modifyGet fun _ => rfl) fun _ => .bind (Unmarking.get.bind fun _ => .pure _) fun _ =>
    (unmarking_skipToSeparator _ _).bind fun _ => .modifyGet fun _ => rfl

lemma unmarking_separator (mode : Mode) (closer : TokenKind) : Unmarking (separator mode closer) := by
  refine (unmarking_peek _ _).bind fun token => .ite (unmarking_skipToken _ _) ?_
  refine (unmarking_closesAwaited _).bind fun closes => .ite (.pure _) ?_
  exact (unmarking_note _).bind fun _ => unmarking_recover _

lemma unmarking_groupHead? (mode : Mode) : Unmarking (groupHead? mode) := by
  have none : Unmarking (do rewind; return none : Parser (Option (Option Token × Token))) :=
    unmarking_rewind.bind fun _ => .pure _
  refine (unmarking_lookAhead _ _).bind fun first =>
    .ite (unmarking_commit.bind fun _ => .pure _) (.ite ?_ none)
  exact (unmarking_lookAhead _ _).bind fun second => .ite (unmarking_commit.bind fun _ => .pure _) none

lemma unmarking_operatorOf? (group : PriorityGroup) (skipBreaks : Bool) :
    Unmarking (operatorOf? group skipBreaks) := by
  refine (unmarking_peek _ _).bind fun token => .ite ?_ (.pure _)
  split
  · exact (unmarking_skipToken _ _).bind fun _ => .pure _
  · exact .pure _

/-! ### Expansion -/

lemma unmarking_refuse (offset : Nat) (report : Report) : Unmarking (refuse offset report) :=
  (unmarking_note _).bind fun _ => unmarking_placeholderAt _

lemma unmarking_expandDeferred {expandOne : Node → MacroKind → Parser Node}
    (h : ∀ node kind, Unmarking (expandOne node kind)) (span : Span) (tree : Node)
    (waiting : List DeferredInvocation) : Unmarking (expandDeferred expandOne span tree waiting) := by
  induction waiting generalizing tree with
  | nil => exact .pure _
  | cons invocation rest ih =>
    rw [expandDeferred, List.foldlM_cons]
    refine .bind ?_ ih
    split
    · exact .pure _
    · exact (h _ _).bind fun _ => .pure _

lemma unmarking_useMacro {expandOne : Node → MacroKind → Parser Node}
    (h : ∀ node kind, Unmarking (expandOne node kind)) (definition : MacroDefinition) (node : Node) :
    Unmarking (useMacro expandOne definition node) := by
  refine Unmarking.get.bind fun s => .ite (unmarking_refuse _ _) ?_
  dsimp only
  split
  · exact .throw _
  · exact (Unmarking.forM fun _ => unmarking_note _).bind fun _ => unmarking_refuse _ _
  · refine (Unmarking.forM fun _ => unmarking_note _).bind fun _ => .ite (.pure _) ?_
    refine .bind (.modifyGet fun _ => rfl) fun _ => ?_
    exact (unmarking_expandDeferred h _ _ _).bind fun _ => .bind (.modifyGet fun _ => rfl) fun _ => .pure _

lemma unmarking_invokeWithin (levels : Nat) (node : Node) (kind : MacroKind) :
    Unmarking (invokeWithin levels node kind) := by
  induction levels generalizing node kind with
  | zero => exact .throw _
  | succ levels ih =>
    refine Unmarking.get.bind fun s => ?_
    split
    · exact .pure _
    · exact unmarking_useMacro ih _ _
    · exact unmarking_refuse _ _

/-- **Expanding an invocation leaves the marks alone.** -/
lemma unmarking_invoke (node : Node) (kind : MacroKind) : Unmarking (invoke node kind) :=
  Unmarking.get.bind fun _ => unmarking_invokeWithin _ _ _

/-! ## Steps that make nodes -/

/-- **A step that makes nodes of others** and leaves no mark behind, whatever else is at hand. -/
def HandsOn (step : Parser α) (given : List Node) (made : α → List Node) : Prop :=
  ∀ s held, Covers s (given ++ held) → Leaves step s fun value t => Covers t (made value ++ held)

namespace HandsOn

variable {given rest : List Node} {made : α → List Node} {made' : β → List Node}

lemma of_unmarking {step : Parser α} (unmarking : Unmarking step) (h : ∀ value, given ⊆ made value) :
    HandsOn step given made :=
  fun s _ covers => (unmarking s).mono fun value _ same => (covers.of_eq same).swap (h value)

lemma pure {value : α} (h : given ⊆ made value) : HandsOn (Pure.pure value) given made :=
  fun _ _ covers => .pure (covers.swap h)

/-- A step behind one that is not about nodes. -/
lemma after {step : Parser α} {next : α → Parser β} (first : Unmarking step)
    (second : ∀ value, HandsOn (next value) given made') : HandsOn (step >>= next) given made' :=
  fun s held covers => (first s).bind fun value t same => second value t held (covers.of_eq same)

/-- A step behind another one, with what is at hand besides. -/
lemma bind {step : Parser α} {next : α → Parser β} (first : HandsOn step given made)
    (second : ∀ value, HandsOn (next value) (made value ++ rest) made') :
    HandsOn (step >>= next) (given ++ rest) made' := by
  intro s held covers
  rw [List.append_assoc] at covers
  refine (first s _ covers).bind fun value t made => second value t held ?_
  rwa [List.append_assoc]

/-- A step behind another one, of what that one made. -/
lemma chain {step : Parser α} {next : α → Parser β} (first : HandsOn step given made)
    (second : ∀ value, HandsOn (next value) (made value) made') : HandsOn (step >>= next) given made' :=
  fun s held covers => (first s held covers).bind fun value t made => second value t held made

/-- Where more is given than was asked for. -/
lemma subset {step : Parser α} (handsOn : HandsOn step others made) (h : given ⊆ others) :
    HandsOn step given made :=
  fun s held covers => handsOn s held (covers.swap h)

end HandsOn

/-- A node that is offered to the macros, or waits. -/
lemma handsOn_expand (node : Node) (kind : MacroKind) :
    HandsOn (expand node kind) [node] fun made => [made] := by
  intro s held covers
  refine .get ?_
  have invoked (covered : Covers s held) :
      Leaves (invoke node kind) s fun made t => Covers t ([made] ++ held) :=
    (unmarking_invoke node kind s).mono fun made t same =>
      (covered.of_eq same).mono (List.subset_append_right _ _)
  cases known : s.scope with
  | none => exact invoked fun _ inside => by simp [known] at inside
  | some scope =>
    have covered : scope.references.Covered (node :: held) := covers scope known
    dsimp only
    split
    · refine .modify (.pure fun other inside => ?_)
      cases inside
      exact covered
    · rename_i unmentioned
      refine invoked fun other inside => ?_
      obtain rfl : scope = other := Option.some.inj (known.symm.trans inside)
      exact covered.leave fun number member marked =>
        unmentioned (TemplateScope.mentionsParameter_iff.mpr ⟨number, member, marked⟩)

/-- A token that becomes a node. -/
lemma handsOn_primitive (token : Token) (expands : Bool) :
    HandsOn (primitive token expands) [] fun made => [made] := by
  refine .after unmarking_freshId fun id => ?_
  dsimp only
  split
  · exact .pure (List.nil_subset _)
  refine .after (unmarking_parameterIndex? _) fun found => ?_
  cases found with
  | some parameter =>
    refine fun s held covers => .modify (.pure (covers.remarked fun scope covered => ?_))
    exact (covered.mono (List.subset_cons_self _ _)).insert rfl
  | none =>
    dsimp only
    split
    · exact .of_unmarking (unmarking_invoke _ _) fun _ => List.nil_subset _
    · exact .pure (List.nil_subset _)

/-- An operator with its operands. -/
lemma handsOn_operatorNode (op : OperatorDefinition) (operands : List Node) (span : Span) :
    HandsOn (operatorNode op operands span) operands fun made => [made] := by
  refine .after unmarking_freshId fun id s held covers => handsOn_expand _ _ s held fun scope inside => ?_
  exact (covers scope inside).gather fun _ member => member

/-- **The call that an accessor builds** takes over the mark of the member. -/
lemma handsOn_accessorCall (op : OperatorDefinition) (span : Span) :
    HandsOn (accessorCall op left right span) [left, right] fun made => [made] := by
  intro s held covers
  set call := Node.list (op.nodeName ++ invokedName right) (callValues left right) false
    ⟨s.lastId + 1, span⟩ with hcall
  have erased (scope : TemplateScope) (covered : scope.references.Covered ([left, right] ++ held)) :
      (scope.references.erase right.id).Covered (call :: held) := by
    refine covered.keep fun mark kept node member bears => ?_
    have child {part : Node} (inside : part ∈ callValues left right) (bears : part.Bears mark) :
        ∃ other ∈ call :: held, other.Bears mark :=
      ⟨call, List.mem_cons_self, Node.bears_iff.mpr (.inr ⟨part, inside, bears⟩)⟩
    rcases List.mem_cons.mp member with rfl | member
    · exact child (by cases right <;> simp [callValues]) bears
    rcases List.mem_cons.mp member with rfl | member
    · -- The member has lost its own mark; those below it are still there.
      obtain ⟨same, -⟩ | ⟨part, inside, bears⟩ := Node.bears_iff.mp bears
      · exact absurd same.symm (by simpa using kept)
      · have group : ∀ value origin, node ≠ .primitive value origin := by
          rintro value origin rfl
          cases inside
        have renamed : (node.rename "").Bears mark :=
          Node.bears_iff.mpr (.inr ⟨part, by simpa using inside, bears⟩)
        exact child (by simp [callValues_group group]) renamed
    · exact ⟨node, List.mem_cons_of_mem _ member, bears⟩
  intro made t run
  rw [accessorCall_eq] at run
  dsimp only at run
  split at run
  · refine handsOn_expand call _ _ held ?_ made t run
    exact Covers.remarked (Covers.remarked covers erased) fun scope covered => covered.insert rfl
  · refine handsOn_expand call _ _ held ?_ made t run
    exact Covers.remarked covers erased

/-- **A binary operator** between two operands. -/
lemma handsOn_binaryNode (op : OperatorDefinition) :
    HandsOn (binaryNode op left right) [left, right] fun made => [made] := by
  rw [binaryNode]
  split
  · exact handsOn_accessorCall op _
  · exact handsOn_operatorNode op _ _

/-- The node of a group, or of the only element in it. -/
lemma handsOn_completeGroup (name : Option Token) (start : Nat) (expands : Bool) (reference : Option Nat)
    (content : GroupContent) :
    HandsOn (completeGroup options name start expands reference content) content.nodes
      fun made => [made] := by
  have offered (text : String) (id : Nat) :
      HandsOn (if expands then expand (content.node text id start) content.kind
        else Pure.pure (content.node text id start)) [content.node text id start] fun made => [made] := by
    split
    · exact handsOn_expand _ _
    · exact .pure (List.Subset.refl _)
  have group (text : String) (id : Nat) : (content.node text id start).isNameable = true := by
    cases content <;> rfl
  have gathers (text : String) (id : Nat) {s : ParserState} {held : List Node}
      (covers : Covers s (content.nodes ++ held)) : Covers s (content.node text id start :: held) :=
    fun scope inside => (covers scope inside).gather (by cases content <;> exact fun _ member => member)
  rw [completeGroup.eq_def]
  dsimp only
  split
  · exact .pure (List.Subset.refl _)
  · refine .after unmarking_freshId fun id s held covers => ?_
    split
    · refine .modify (offered _ _ _ held ?_)
      exact Covers.remarked (gathers _ id covers) fun scope covered => covered.insert (group _ _)
    · exact offered _ _ s held (gathers _ id covers)

/-- A property; where its key is taken, it is left out with its marks. -/
lemma handsOn_addProperty (key : Token) (node : Node) (properties : List (String × Node)) :
    HandsOn (addProperty options key node properties) (node :: properties.map Prod.snd)
      fun found => found.map Prod.snd := by
  rw [addProperty]
  split <;> rename_i taken
  · refine .after (unmarking_note _) fun _ s held covers => .modify (.pure ?_)
    rw [Node.insertNew, if_pos taken]
    refine covers.remarked fun scope covered => ?_
    rw [TemplateScope.drop_eq]
    refine covered.keep fun mark kept other member bears => ?_
    rcases List.mem_cons.mp member with rfl | member
    · exact absurd bears.mem_numbers (by simpa using kept)
    · exact ⟨other, member, bears⟩
  · refine .pure ?_
    rw [Node.insertNew, if_neg taken, List.map_append]
    exact List.cons_subset.mpr ⟨by simp, List.subset_append_left _ _⟩

/-! ## Calls -/

namespace Reading

/-- Whether a call reads nodes inside a value. -/
def readsNodes : Reading α → Bool
  | parameters .. | clauses _ | skipGroup _ | skipToSeparator _ => false
  | _ => true

/-- The nodes that a call is given. -/
def takes : Reading α → List Node
  | properties _ known => known.map Prod.snd
  | elements _ _ _ known => known
  | binary _ _ left | postfixes _ left => [left]
  | _ => []

/-- The nodes that a call makes. -/
def gives : Reading α → α → List Node
  | value, node | operand, node | expression, node | level _, node | binary .., node
  | postfixes .., node => [node]
  | group .., found => found.toList
  | properties .., found => found.1.map Prod.snd
  | elements .., found => found.1
  | parameters .., _ | clauses _, _ | skipGroup _, _ | skipToSeparator _, _ => []

variable {calls : ∀ {β : Type}, Reading β → Parser β}
  (each : ∀ {β : Type} (call : Reading β), call.readsNodes → HandsOn (calls call) call.takes call.gives)

include each

/-- A value or an operand. -/
lemma handsOn_atom (nameMode mode : Mode) (missing : Token → Cause) :
    HandsOn (atomRound calls nameMode mode missing) [] fun node => [node] := by
  refine .after (.modifyGet fun _ => rfl) fun suppressed => ?_
  refine .chain (each (group nameMode !suppressed) rfl) fun found => ?_
  cases found with
  | some node => exact .pure (List.Subset.refl _)
  | none =>
    refine .after (unmarking_peek _ _) fun token => ?_
    split
    · exact .after (unmarking_skipToken _ _) fun _ => handsOn_primitive token _
    · refine .after (unmarking_note _) fun _ => ?_
      exact .of_unmarking (unmarking_placeholderAt _) fun _ => List.nil_subset _

/-- The contents of a group, from its opener on. -/
lemma handsOn_content (opener : TokenKind) (start : Nat) :
    HandsOn (contentRound calls opener start) [] GroupContent.nodes := by
  rw [contentRound]
  split
  · exact (each (properties start []) rfl).chain fun found =>
      .pure (List.Subset.refl _)
  set closer := opener.closer?.getD .rParen
  split
  · exact (each (elements start .value closer []) rfl).chain fun found =>
      .pure (List.Subset.refl _)
  · exact (each (elements start .operation closer []) rfl).chain fun found =>
      .pure (List.Subset.refl _)

/-- A group, if one is next. -/
lemma handsOn_group (nameMode : Mode) (expands : Bool) :
    HandsOn (groupRound options calls nameMode expands) [] Option.toList := by
  refine .after (unmarking_groupHead? _) fun found => ?_
  match found with
  | none => exact .pure (List.nil_subset _)
  | some (name, opener) =>
    refine .after (unmarking_reference _) fun reference => ?_
    refine .after (.modifyGet fun _ => rfl) fun _ => ?_
    refine (handsOn_content each opener.kind _).chain fun content => ?_
    refine .after (.modifyGet fun _ => rfl) fun _ => ?_
    refine (handsOn_completeGroup name _ expands reference content).chain fun node => ?_
    exact .pure (List.Subset.refl _)

/-- The elements of a list or an operation. -/
lemma handsOn_elements (start : Nat) (mode : Mode) (closer : TokenKind) (known : List Node) :
    HandsOn (elementsRound calls start mode closer known) known fun found => found.1 := by
  have all : known ⊆ known.reverse := fun _ => List.mem_reverse.mpr
  refine .after (unmarking_peek _ _) fun token => ?_
  split
  · exact .after (unmarking_skipToken _ _) fun _ => .pure all
  refine .after (unmarking_closesAwaited _) fun closes => ?_
  split
  · exact .after (unmarking_note _) fun _ => .pure all
  split
  · refine .after (unmarking_skipToken _ _) fun _ => .after (unmarking_note _) fun _ => ?_
    exact each (elements start mode closer known) rfl
  · have element : HandsOn (elementRound calls mode) [] fun node => [node] := by
      rw [elementRound]
      split
      · exact each expression rfl
      · exact each value rfl
    refine element.bind fun node => .after (unmarking_separator _ _) fun _ => ?_
    exact each (elements start mode closer (node :: known)) rfl

/-- The properties of an object. -/
lemma handsOn_properties (start : Nat) (known : List (String × Node)) :
    HandsOn (propertiesRound options calls start known) (known.map Prod.snd)
      fun found => found.1.map Prod.snd := by
  have again (known : List (String × Node)) :
      HandsOn (calls (properties start known)) (known.map Prod.snd) fun found => found.1.map Prod.snd :=
    each (properties start known) rfl
  have recovered (offset : Nat) (cause : Cause) :
      HandsOn (do complain offset cause; recover (some .rBrace); calls (properties start known))
        (known.map Prod.snd) fun found => found.1.map Prod.snd :=
    .after (unmarking_note _) fun _ => .after (unmarking_recover _) fun _ => again known
  refine .after (unmarking_peek _ _) fun token => ?_
  split
  · exact .after (unmarking_skipToken _ _) fun _ => .pure (List.Subset.refl _)
  refine .after (unmarking_closesAwaited _) fun closes => ?_
  split
  · exact .after (unmarking_note _) fun _ => .pure (List.Subset.refl _)
  split
  · exact .after (unmarking_skipToken _ _) fun _ => .after (unmarking_note _) fun _ => again known
  split
  · refine .after (unmarking_skipToken _ _) fun _ => .after (unmarking_peek _ _) fun colon => ?_
    split
    · exact recovered _ _
    refine .after (unmarking_skipToken _ _) fun _ => ?_
    refine (each value rfl).bind fun node => ?_
    refine ((handsOn_addProperty token node known).chain fun extended => ?_).subset (List.Subset.refl _)
    exact .after (unmarking_separator _ _) fun _ => again extended
  · exact recovered _ _

/-- An expression of some groups of operators. -/
lemma handsOn_level (groups : List PriorityGroup) :
    HandsOn (levelRound calls groups) [] fun node => [node] := by
  cases groups with
  | nil => exact each operand rfl
  | cons ops tighter =>
    simp only [levelRound]
    cases ops.fixity with
    | binary =>
      exact (each (level tighter) rfl).chain fun left => each (binary ops tighter left) rfl
    | postfixed =>
      exact (each (level tighter) rfl).chain fun inner => each (postfixes ops inner) rfl
    | prefixed =>
      refine .after unmarking_position fun start => .after (unmarking_operatorOf? _ _) fun found => ?_
      cases found with
      | none => exact each (level tighter) rfl
      | some op =>
        exact (each (level (ops :: tighter)) rfl).chain fun inner =>
          handsOn_operatorNode op [inner] _

/-- An operand and the binary operators behind it. -/
lemma handsOn_binary (ops : PriorityGroup) (tighter : List PriorityGroup) :
    HandsOn (binaryRound calls ops tighter left) [left] fun node => [node] := by
  refine .after (unmarking_operatorOf? _ _) fun found => ?_
  cases found with
  | none => exact .pure (List.Subset.refl _)
  | some op =>
    have makes (right : Node) : HandsOn (binaryNode op left right) [right, left] fun node => [node] :=
      (handsOn_binaryNode op).subset (List.Perm.swap left right []).subset
    dsimp only
    split
    · exact (each (level (ops :: tighter)) rfl).bind makes
    · refine .after (.modifyGet fun _ => rfl) fun _ => (each (level tighter) rfl).bind fun right => ?_
      refine .after (.modifyGet fun _ => rfl) fun _ => (makes right).chain fun node => ?_
      exact each (binary ops tighter node) rfl

/-- An operand and the postfix operators behind it. -/
lemma handsOn_postfixes (ops : PriorityGroup) :
    HandsOn (postfixesRound calls ops node) [node] fun made => [made] := by
  refine .after (unmarking_operatorOf? _ _) fun found => ?_
  cases found with
  | none => exact .pure (List.Subset.refl _)
  | some op =>
    refine .after unmarking_position fun stop => ?_
    exact (handsOn_operatorNode op [node] _).chain fun made => each (postfixes ops made) rfl

/-- **A round leaves no mark behind**, as far as the calls in it leave none. -/
theorem handsOn_round (call : Reading α) (reads : call.readsNodes) :
    HandsOn (call.round options calls) call.takes call.gives := by
  cases call with
  | value => exact handsOn_atom each _ _ _
  | operand => exact handsOn_atom each _ _ _
  | group nameMode expands => exact handsOn_group each nameMode expands
  | properties start known => exact handsOn_properties each start known
  | elements start mode closer known => exact handsOn_elements each start mode closer known
  | expression => exact .after .get fun s => each (level _) rfl
  | level groups => exact handsOn_level each groups
  | binary ops tighter left => exact handsOn_binary each ops tighter
  | postfixes ops inner => exact handsOn_postfixes each ops
  | parameters | clauses | skipGroup | skipToSeparator => cases reads

omit each

/-- **No call leaves a mark behind**, by induction on its bound. -/
theorem handsOn_within (fuel : Nat) (call : Reading α) (reads : call.readsNodes) :
    HandsOn (call.within options fuel) call.takes call.gives := by
  induction fuel generalizing α with
  | zero =>
    rw [within_zero]
    exact fun _ _ _ _ _ run => nomatch run
  | succ fuel ih =>
    rw [within_succ]
    exact handsOn_round ih call reads

end Reading

/-! ## Templates -/

/-- **Every mark on a template is borne by it.** -/
theorem covered_template {fuel : Nat} {parameters : List Parameter} {tree : Node} {scope : TemplateScope}
    (run : template options fuel parameters s = .ok (tree, some scope) t) :
    scope.references.Covered [tree] := by
  have begun : Covers { s with scope := some (.start (parameters.map (·.name))) } ([] ++ []) := by
    rintro _ ⟨⟩
    exact .empty _
  have read : HandsOn (parseValue options fuel) [] fun node => [node] :=
    Reading.handsOn_within fuel .value rfl
  have covers : Leaves (template options fuel parameters) s fun found _ =>
      ∀ scope ∈ found.2, scope.references.Covered [found.1] :=
    .get (.modify (Leaves.bind (read _ [] begun) fun node u covers => .get (.modify (.pure covers))))
  exact covers _ t run scope rfl

end Parser

/-! ## References that were all found -/

namespace Marks

variable {references : Marks Reference} {template : Node}

/-- **Where no more references are found than were made**, each is the mark of one node, which is what it
says: for each mark is borne by the template, so that none is found on another node as well. -/
theorem Covered.refer (covered : references.Covered [template])
    (found : (MacroDefinition.findReplacements template references).length = references.size) :
    references.Refer template := by
  set marked := template.nodes.filter fun entry => references.contains entry.2.id with hmarked
  have bearer (mark : Nat × Reference) (member : mark ∈ references.entries) :
      ∃ entry ∈ template.nodes, entry.2.id = mark.1 ∧ mark.2.target.Suits entry.2 := by
    obtain ⟨node, inside, bears⟩ := covered.borne mark member
    exact List.mem_singleton.mp inside ▸ bears
  have all : references.keys ⊆ marked.map fun entry => entry.2.id := by
    intro id known
    obtain ⟨mark, member, rfl⟩ := List.mem_map.mp known
    obtain ⟨entry, inside, same, -⟩ := bearer mark member
    exact List.mem_map.mpr ⟨entry,
      List.mem_filter.mpr ⟨inside, contains_iff.mpr (same ▸ known)⟩, same⟩
  have count : (marked.map fun entry => entry.2.id).length = references.keys.length := by
    rw [length_keys, ← found, MacroDefinition.length_findReplacements, Node.numbers, List.filter_map,
      List.length_map, List.length_map]
    rfl
  have once : (marked.map fun entry => entry.2.id).Nodup :=
    ((List.subperm_of_subset covered.once all).perm_of_length_le (Nat.le_of_eq count)).nodup covered.once
  refine ⟨covered.once, fun id known => ?_, fun entry inside reference known => ?_⟩
  · obtain ⟨entry, member, rfl⟩ := List.mem_map.mp (all known)
    exact List.mem_map_of_mem (List.mem_of_mem_filter member)
  · obtain ⟨bearing, also, same, suits⟩ := bearer _ (mem_of_find? known)
    have contains : references.contains entry.2.id = true := by rw [contains, known]; rfl
    have here : entry ∈ marked := List.mem_filter.mpr ⟨inside, contains⟩
    have there : bearing ∈ marked := List.mem_filter.mpr ⟨also, same ▸ contains⟩
    rw [← List.inj_on_of_nodup_map once there here same]
    exact suits

/-- **The references of a template that was built into a definition** are right. -/
theorem Covered.refer_of_build (covered : references.Covered [template]) {signature : Signature}
    {parameters : List Parameter} {deferred : Marks MacroKind} {definition : MacroDefinition}
    {warnings : List Report}
    (built : MacroDefinition.build signature parameters template references deferred
      = .ok (definition, warnings)) :
    references.Refer template :=
  covered.refer (MacroDefinition.eq_of_build built).2

end Marks

end TreeLang
