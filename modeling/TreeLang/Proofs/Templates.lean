import TreeLang.Proofs.Marking
import TreeLang.Proofs.Relocating
import TreeLang.Proofs.RoundTrip

/-!
# The marks on a template

While a template is read its nodes are marked: a bare word that is a parameter, a group named by
one, and a call of a member that is one.  Calls take marks over from their members, so it does not
show in the parser that a mark is a matter of the finished tree alone.  It is: every node of the
template carries the mark that its text or its name stands for, and no other.

* `Node.referenceIn` — what a node refers to, by its text or its name.
* `Node.Marked` — every node of a tree carries that mark.
* `Drafts` — the nodes at hand are marked so.
* **`drafts_make`** — the nodes made of a phrase are.
-/

namespace TreeLang

variable {names : List String} {references others : Marks Reference}

/-! ## Marks of a tree -/

namespace Node

/-- **What a node refers to**: the parameter that is its text, or by which it is named. -/
def referenceIn (names : List String) : Node → Option Reference
  | .primitive value _ => (names.findIdx? (· = value)).map (⟨·, .value⟩)
  | .object name _ _ => (names.findIdx? (· = name)).map (⟨·, .name ""⟩)
  | .list name _ _ _ => (names.findIdx? (· = name)).map (⟨·, .name ""⟩)

/-- **Every node of a tree carries the mark of what it refers to**, and no other. -/
def Marked (names : List String) (references : Marks Reference) (node : Node) : Prop :=
  node.All fun inner => references.find? inner.id = inner.referenceIn names

lemma marked_primitive {value : String} {origin : Origin} :
    (primitive value origin).Marked names references ↔
      references.find? origin.id = (primitive value origin).referenceIn names := Iff.rfl

lemma marked_object {name : String} {properties : List (String × Node)} {origin : Origin} :
    (object name properties origin).Marked names references ↔
      references.find? origin.id = (object name properties origin).referenceIn names ∧
        ∀ entry ∈ properties, entry.2.Marked names references := by
  rw [Marked, All, allProperties_iff]
  rfl

lemma marked_list {name : String} {values : List Node} {operation : Bool} {origin : Origin} :
    (list name values operation origin).Marked names references ↔
      references.find? origin.id = (list name values operation origin).referenceIn names ∧
        ∀ value ∈ values, value.Marked names references := by
  rw [Marked, All, allValues_iff]
  rfl

lemma Marked.root {node : Node} (marked : node.Marked names references) :
    references.find? node.id = node.referenceIn names := by
  cases node with
  | primitive => exact marked
  | object => exact (marked_object.mp marked).1
  | list => exact (marked_list.mp marked).1

/-- Marks on other nodes do not count. -/
theorem Marked.congr (node : Node)
    (same : ∀ id ∈ node.numbers, others.find? id = references.find? id)
    (marked : node.Marked names references) : node.Marked names others := by
  induction node using induct_parts with
  | primitive value origin =>
    rw [marked_primitive] at marked ⊢
    rw [same _ (by simp), marked]
  | object name properties origin ih =>
    rw [marked_object] at marked ⊢
    refine ⟨by rw [same _ (by simp), marked.1], fun entry member => ?_⟩
    refine ih entry member (fun id inside => same id ?_) (marked.2 entry member)
    rw [numbers_object]
    exact List.mem_cons_of_mem _ (List.mem_flatMap.mpr ⟨_, List.mem_map_of_mem member, inside⟩)
  | list name values operation origin ih =>
    rw [marked_list] at marked ⊢
    refine ⟨by rw [same _ (by simp), marked.1], fun value member => ?_⟩
    refine ih value member (fun id inside => same id ?_) (marked.2 value member)
    rw [numbers_list]
    exact List.mem_cons_of_mem _ (List.mem_flatMap.mpr ⟨_, member, inside⟩)

end Node

/-- What is none of the names is not found among them. -/
lemma findIdx?_eq_none {word : String} (foreign : word ∉ names) : names.findIdx? (· = word) = none := by
  rw [List.findIdx?_eq_none_iff]
  intro name member
  simpa using fun same : name = word => foreign (same ▸ member)

namespace ParserState

/-- The marks on references that were made so far. -/
def marks (s : ParserState) : Option (Marks Reference) :=
  s.scope.map (·.references)

end ParserState

namespace Parser

variable {s t : ParserState} {node : Node} {held parts : List Node}

/-! ## States while a template is read -/

/-- Only the mark on one number may have changed. -/
def Remarks (s t : ParserState) (id : Nat) (mark : Option Reference) : Prop :=
  ∀ references, s.marks = some references → ∃ changed, t.marks = some changed ∧
    changed.find? id = mark ∧ ∀ other, other ≠ id → changed.find? other = references.find? other

lemma remarks_of_eq {id : Nat} (same : t.marks = s.marks)
    (fresh : ∀ references, s.marks = some references → references.find? id = none) :
    Remarks s t id none :=
  fun references h => ⟨references, same.trans h, fresh references h, fun _ _ => rfl⟩

lemma remarks_of_insert {id : Nat} {mark : Reference}
    (same : t.marks = s.marks.map fun references => references.insert id mark) :
    Remarks s t id (some mark) :=
  fun references h => ⟨references.insert id mark, by rw [same, h]; rfl, by simp,
    fun _ other => Marks.find?_insert_of_ne _ _ other⟩

/-- **A template is being read under some names**, and the nodes at hand carry the marks of what they
refer to. -/
structure Drafts (names : List String) (s : ParserState) (held : List Node) : Prop where
  quiet : Quiet s
  tracks : Tracks names (fun _ => False) 0 s held
  marked : ∃ references, s.marks = some references ∧
    ∀ node ∈ held, node.Marked names references

namespace Drafts

lemma exact (drafts : Drafts names s held) {scope : TemplateScope} (inside : s.scope = some scope) :
    Exact 0 s.lastId scope.references.keys scope.deferred.keys held := by
  rcases drafts.tracks.marks scope inside with ⟨_, none, -⟩ | exact
  · exact none.elim
  · exact exact

lemma known (drafts : Drafts names s held) (member : node ∈ held) {id : Nat}
    (inside : id ∈ node.numbers) : id ≤ s.lastId :=
  (drafts.tracks.known node member id inside).resolve_right not_false

/-- The next number is not marked. -/
lemma fresh (drafts : Drafts names s held) (references : Marks Reference)
    (h : s.marks = some references) : references.find? (s.lastId + 1) = none := by
  obtain ⟨scope, inside, rfl⟩ := Option.map_eq_some_iff.mp h
  have absent : ¬ scope.references.contains (s.lastId + 1) = true := by
    rw [Marks.contains_iff]
    exact fun member => absurd ((drafts.exact inside).recent _ (.inl member)).2 (by omega)
  simpa [Marks.contains] using absent

/-- A word is looked up among the names. -/
lemma parameter (drafts : Drafts names s held) (word : String) :
    (s.scope.bind fun scope => scope.parameters.findIdx? (· = word)) = names.findIdx? (· = word) := by
  obtain ⟨references, h, -⟩ := drafts.marked
  obtain ⟨scope, inside, -⟩ := Option.map_eq_some_iff.mp h
  rw [inside, Option.bind_some, drafts.tracks.parameters scope inside]

/-- **A node that is made of others** carries its mark, if that is the only one that is new. -/
lemma make (drafts : Drafts names s (parts ++ held)) (quiet : Quiet t)
    (tracks : Tracks names (fun _ => False) 0 t (node :: held)) (new : node.id = s.lastId + 1)
    (remarks : Remarks s t node.id (node.referenceIn names))
    (whole : ∀ references : Marks Reference, references.find? node.id = node.referenceIn names →
      (∀ part ∈ parts, part.Marked names references) → node.Marked names references) :
    Drafts names t (node :: held) := by
  obtain ⟨references, h, marked⟩ := drafts.marked
  obtain ⟨changed, h', root, kept⟩ := remarks references h
  have still : ∀ other ∈ parts ++ held, other.Marked names changed := by
    intro other member
    refine Node.Marked.congr other (fun id inside => kept id ?_) (marked other member)
    have le := drafts.known member inside
    omega
  refine ⟨quiet, tracks, changed, h', List.forall_mem_cons.mpr ⟨whole changed root ?_, ?_⟩⟩
  · exact fun part member => still part (List.mem_append_left _ member)
  · exact fun other member => still other (List.mem_append_right _ member)

end Drafts

/-- Without macros an invocation is left, perhaps to be expanded later. -/
lemma expand_eq (quiet : Quiet s) (node : Node) (kind : MacroKind) :
    ∃ t, expand node kind s = .ok node t ∧ Quiet t ∧ t.marks = s.marks := by
  have invoked : invoke node kind s = .ok node s := quiet.still.invoke_eq trivial kind
  rw [expand, bind_get]
  cases inside : s.scope with
  | none => exact ⟨s, invoked, quiet, rfl⟩
  | some scope =>
    dsimp only
    split
    · exact ⟨_, rfl, ⟨quiet.macros, quiet.depth, quiet.recovering⟩, by simp [ParserState.marks, inside]⟩
    · exact ⟨s, invoked, quiet, rfl⟩

/-! ## Nodes of every sort -/

/-- A bare word carries its mark. -/
lemma drafts_primitive (drafts : Drafts names s held) {token : Token} (literal : token.kind = .literal)
    (expands : Bool) :
    ∃ node t, primitive token expands s = .ok node t ∧ Drafts names t (node :: held) := by
  obtain ⟨made, t, hmade, tracks⟩ := makes_primitive drafts.tracks token expands
  set node := Node.primitive token.content ⟨s.lastId + 1, ⟨token.start, token.stop⟩⟩ with hnode
  have quiet : Quiet s.numbered := ⟨drafts.quiet.macros, drafts.quiet.depth, drafts.quiet.recovering⟩
  have found : parameterIndex? token.content s.numbered
      = .ok (names.findIdx? (· = token.content)) s.numbered := by
    rw [parameterIndex?_eq, drafts.parameter]
  obtain ⟨u, hu, quietU, remarks⟩ : ∃ u, primitive token expands s = .ok node u ∧ Quiet u ∧
      Remarks s u node.id (node.referenceIn names) := by
    rw [primitive, bind_ok (freshId_eq s)]
    simp only [literal, reduceCtorEq, if_false]
    rw [bind_ok found, Node.referenceIn]
    cases names.findIdx? (· = token.content) with
    | some parameter =>
      refine ⟨_, bind_ok (markReference_eq _ _ _), ⟨quiet.macros, quiet.depth, quiet.recovering⟩, ?_⟩
      exact remarks_of_insert (by simp [ParserState.marks, Option.map_map, Function.comp_def, hnode])
    | none =>
      refine ⟨s.numbered, ?_, quiet, remarks_of_eq rfl drafts.fresh⟩
      dsimp only
      split
      · exact quiet.still.invoke_eq trivial .constant
      · rfl
  obtain ⟨rfl, rfl⟩ := ok_unique hmade hu
  refine ⟨_, _, hmade, Drafts.make (show Drafts names s ([] ++ held) from drafts) quietU tracks rfl remarks ?_⟩
  exact fun references root _ => Node.marked_primitive.mpr root

/-- An operator is no parameter, so its node carries no mark. -/
lemma drafts_operatorNode {op : OperatorDefinition} (foreign : op.nodeName ∉ names)
    (operands : List Node) (span : Span) (drafts : Drafts names s (operands ++ held)) :
    ∃ node t, operatorNode op operands span s = .ok node t ∧ Drafts names t (node :: held) := by
  obtain ⟨made, t, hmade, tracks⟩ := makes_operatorNode op operands span drafts.tracks
  set node := Node.list op.nodeName operands true ⟨s.lastId + 1, span⟩ with hnode
  have quiet : Quiet s.numbered := ⟨drafts.quiet.macros, drafts.quiet.depth, drafts.quiet.recovering⟩
  obtain ⟨u, hu, quietU, kept⟩ := expand_eq quiet node .operation
  have step : operatorNode op operands span s = .ok node u := by
    rw [operatorNode, bind_ok (freshId_eq s)]
    exact hu
  obtain ⟨rfl, rfl⟩ := ok_unique hmade step
  have none : node.referenceIn names = none := by
    rw [hnode, Node.referenceIn, findIdx?_eq_none foreign]
    rfl
  refine ⟨_, _, hmade, drafts.make quietU tracks rfl ?_ fun references root parts =>
    Node.marked_list.mpr ⟨root, parts⟩⟩
  rw [none]
  exact remarks_of_eq kept drafts.fresh

/-- A completed group is its only element, or a node under the next number. -/
lemma completeGroup_cases (quiet : Quiet s) {options : CompileOptions} (name : Option Token)
    (start : Nat) (expands : Bool) (reference : Option Nat) (content : GroupContent)
    (fresh : ∀ references, s.marks = some references → references.find? (s.lastId + 1) = none) :
    (∃ only, content.nodes = [only] ∧
      completeGroup options name start expands reference content s = .ok only s) ∨
    ∃ t, completeGroup options name start expands reference content s
        = .ok (content.node ((name.map Token.content).getD "") (s.lastId + 1) start) t ∧ Quiet t ∧
      Remarks s t (s.lastId + 1) (reference.map (⟨·, .name ""⟩)) := by
  have root : ∀ text, (content.node text (s.lastId + 1) start).id = s.lastId + 1 := by
    intro text
    cases content <;> rfl
  have quiet : Quiet s.numbered := ⟨quiet.macros, quiet.depth, quiet.recovering⟩
  -- What remains once the mark is set.
  have finish : ∀ {u : ParserState} (node : Node), Quiet u → ∃ v,
      (if expands then expand node content.kind else pure node : Parser Node) u = .ok node v ∧
        Quiet v ∧ v.marks = u.marks := by
    intro u node quiet
    split
    · exact expand_eq quiet node content.kind
    · exact ⟨u, rfl, quiet, rfl⟩
  by_cases collapses : ∃ only stop, content = .values [only] true stop ∧
      (((name.map Token.content).getD "").isEmpty && options.collapseUnaryOperation) = true
  · obtain ⟨only, stop, rfl, collapses⟩ := collapses
    refine .inl ⟨only, rfl, ?_⟩
    simp only [completeGroup, collapses]
    rfl
  right
  have step : completeGroup options name start expands reference content
      = groupNode ((name.map Token.content).getD "") start expands reference content := by
    simp only [completeGroup]
    split
    · rename_i only stop condition
      exact absurd ⟨only, stop, rfl, condition⟩ collapses
    · rfl
  rw [step, groupNode, bind_ok (freshId_eq s)]
  cases reference with
  | none =>
    obtain ⟨t, step, quiet, kept⟩ := finish _ quiet
    exact ⟨t, step, quiet, remarks_of_eq kept fresh⟩
  | some parameter =>
    obtain ⟨t, step, quiet, kept⟩ := finish (u := s.numbered.remarked fun scope => { scope with
      references := scope.references.insert (s.lastId + 1) ⟨parameter, .name ""⟩ }) _
      ⟨quiet.macros, quiet.depth, quiet.recovering⟩
    refine ⟨t, ?_, quiet, remarks_of_insert ?_⟩
    · dsimp only
      rw [root, bind_ok (markReference_eq _ _ _)]
      exact step
    · rw [kept]
      simp [ParserState.marks, Option.map_map, Function.comp_def]

/-- A group carries its mark. -/
lemma drafts_completeGroup (options : CompileOptions) (name : Option Token) (start : Nat)
    (expands : Bool) {reference : Option Nat} (content : GroupContent)
    (referred : reference = names.findIdx? (· = (name.map Token.content).getD ""))
    (drafts : Drafts names s (content.nodes ++ held)) :
    ∃ node t, completeGroup options name start expands reference content s = .ok node t ∧
      Drafts names t (node :: held) := by
  have bounded : ∀ index ∈ reference, index < names.length := by
    intro index found
    rw [referred] at found
    exact (List.findIdx?_eq_some_iff_getElem.mp found).1
  obtain ⟨made, t, hmade, tracks⟩ : Makes _ (completeGroup options name start expands reference content)
      s held := makes_completeGroup name start expands reference content bounded drafts.tracks
  rcases completeGroup_cases drafts.quiet name start expands reference content drafts.fresh with
    ⟨only, single, step⟩ | ⟨u, step, quiet, remarks⟩
  · rw [single] at drafts
    exact ⟨only, s, step, drafts⟩
  obtain ⟨rfl, rfl⟩ := ok_unique hmade step
  have root : (content.node ((name.map Token.content).getD "") (s.lastId + 1) start).id
      = s.lastId + 1 := by
    cases content <;> rfl
  refine ⟨_, _, hmade, drafts.make quiet tracks root ?_ fun references root parts => ?_⟩
  · rw [root]
    cases content <;> rw [referred] at remarks <;> exact remarks
  · cases content with
    | properties entries stop =>
      exact Node.marked_object.mpr ⟨root, fun entry member => parts _ (List.mem_map_of_mem member)⟩
    | values elements operation stop => exact Node.marked_list.mpr ⟨root, parts⟩

/-- A mark belongs to one node only. -/
lemma Drafts.erased (drafts : Drafts names s (node :: held))
    (h : s.marks = some references) {other : Node} {id : Nat} (inside : id ∈ other.numbers)
    (elsewhere : other ∈ held ∨ ∃ parts : List Node, node.numbers = node.id :: parts.flatMap Node.numbers ∧
      other ∈ parts) : (references.erase node.id).find? id = references.find? id := by
  by_cases same : id = node.id
  · rw [same, Marks.find?_erase_self]
    by_contra marked
    obtain ⟨scope, inner, rfl⟩ := Option.map_eq_some_iff.mp h
    have key : node.id ∈ scope.references.keys :=
      Marks.contains_iff.mp (Option.isSome_iff_ne_none.mpr (Ne.symm marked))
    have once := (drafts.exact inner).once _ (.inl key)
    rw [same] at inside
    rcases elsewhere with member | ⟨parts, numbers, member⟩
    · exact Node.apart once node.id_mem_numbers member inside
    · have twice : node.id ∈ parts.flatMap Node.numbers := List.mem_flatMap.mpr ⟨_, member, inside⟩
      rw [Node.occurrences_cons, numbers, List.count_cons_self] at once
      have positive := List.count_pos_iff.mpr twice
      omega
  · exact Marks.find?_erase_of_ne _ same

/-- Without its name a member keeps the marks below it. -/
lemma Drafts.rename (drafts : Drafts names s (node :: held)) (h : s.marks = some references)
    (unnamed : "" ∉ names) (marked : node.Marked names references)
    (group : ∀ value origin, node ≠ .primitive value origin) :
    (node.rename "").Marked names (references.erase node.id) := by
  have nothing := findIdx?_eq_none unnamed
  cases node with
  | primitive value origin => exact absurd rfl (group value origin)
  | object name properties origin =>
    refine Node.marked_object.mpr ⟨?_, fun entry member => ?_⟩
    · rw [Node.referenceIn, nothing]
      exact Marks.find?_erase_self _ _
    · refine Node.Marked.congr _ (fun id inside => ?_) ((Node.marked_object.mp marked).2 entry member)
      exact drafts.erased h inside (.inr ⟨_, Node.numbers_object _ _ _, List.mem_map_of_mem member⟩)
  | list name values operation origin =>
    refine Node.marked_list.mpr ⟨?_, fun value member => ?_⟩
    · rw [Node.referenceIn, nothing]
      exact Marks.find?_erase_self _ _
    · refine Node.Marked.congr _ (fun id inside => ?_) ((Node.marked_list.mp marked).2 value member)
      exact drafts.erased h inside (.inr ⟨_, Node.numbers_list _ _ _ _, member⟩)

/-- A call carries the mark of its member. -/
lemma drafts_accessorCall {op : OperatorDefinition} {receiver member : Node}
    (bare : op.nodeName = "") (unnamed : "" ∉ names) (span : Span)
    (drafts : Drafts names s (receiver :: member :: held)) :
    ∃ node t, accessorCall op receiver member span s = .ok node t ∧ Drafts names t (node :: held) := by
  obtain ⟨made, t, hmade, tracks⟩ := makes_accessorCall op receiver member span drafts.tracks
  obtain ⟨references, h, marked⟩ := drafts.marked
  obtain ⟨markedReceiver, markedMember, markedHeld⟩ :
      receiver.Marked names references ∧ member.Marked names references ∧
        ∀ node ∈ held, node.Marked names references :=
    ⟨marked _ List.mem_cons_self, marked _ (by simp), fun node inside => marked _ (by simp [inside])⟩
  have swapped : Drafts names s (member :: receiver :: held) :=
    ⟨drafts.quiet, drafts.tracks.perm (List.Perm.swap _ _ _), references, h,
      by simpa [markedReceiver, markedMember] using markedHeld⟩
  set call := Node.list (op.nodeName ++ invokedName member) (callValues receiver member) false
    ⟨s.lastId + 1, span⟩ with hcall
  have reference : s.scope.bind (fun scope => scope.references.find? member.id)
      = member.referenceIn names := by
    obtain ⟨scope, inside, rfl⟩ := Option.map_eq_some_iff.mp h
    rw [inside, Option.bind_some, markedMember.root]
  -- The call is what the member was, by its name.
  have taken : call.referenceIn names = (member.referenceIn names).map fun reference =>
      ⟨reference.parameter, .name (op.nodeName ++ leadOf reference.target)⟩ := by
    rw [hcall, Node.referenceIn, bare, String.empty_append]
    cases member <;> simp [leadOf, Node.referenceIn, invokedName, Node.value?, Node.name?, Option.map_map,
      Function.comp_def]
  obtain ⟨u, step, quiet, changed, h', root, kept⟩ : ∃ u,
      accessorCall op receiver member span s = .ok call u ∧ Quiet u ∧ ∃ changed,
        u.marks = some changed ∧ changed.find? call.id = call.referenceIn names ∧
        ∀ id, id ≠ call.id → changed.find? id = (references.erase member.id).find? id := by
    have quiet : ∀ change, Quiet ((s.remarked change).numbered) := fun _ =>
      ⟨drafts.quiet.macros, drafts.quiet.depth, drafts.quiet.recovering⟩
    rw [accessorCall_eq]
    dsimp only
    rw [reference, taken]
    cases member.referenceIn names with
    | none =>
      obtain ⟨u, step, quiet, kept⟩ := expand_eq (quiet _) call (.ofMember member)
      refine ⟨u, step, quiet, references.erase member.id, ?_, ?_, fun _ _ => rfl⟩
      · rw [kept]
        obtain ⟨scope, inside, rfl⟩ := Option.map_eq_some_iff.mp h
        simp [ParserState.marks, inside]
      · have other : call.id ≠ member.id := by
          have le := drafts.known (by simp : member ∈ receiver :: member :: held) member.id_mem_numbers
          have new : call.id = s.lastId + 1 := rfl
          omega
        rw [Marks.find?_erase_of_ne _ other]
        exact drafts.fresh references h
    | some reference =>
      obtain ⟨u, step, quiet, kept⟩ := expand_eq (s := ((s.remarked fun scope =>
        { scope with references := scope.references.erase member.id }).numbered).remarked fun scope =>
          { scope with references := scope.references.insert call.id ⟨reference.parameter,
            .name (op.nodeName ++ leadOf reference.target)⟩ }) ⟨drafts.quiet.macros, drafts.quiet.depth, drafts.quiet.recovering⟩
        call (.ofMember member)
      refine ⟨u, step, quiet, (references.erase member.id).insert call.id _, ?_,
        Marks.find?_insert_self _ _ _, fun id other => Marks.find?_insert_of_ne _ _ other⟩
      rw [kept]
      obtain ⟨scope, inside, rfl⟩ := Option.map_eq_some_iff.mp h
      simp [ParserState.marks, inside]
  obtain ⟨rfl, rfl⟩ := ok_unique hmade step
  -- The numbers at hand are older than the call.
  have older : ∀ {other : Node} {id : Nat}, other ∈ receiver :: member :: held →
      id ∈ other.numbers → changed.find? id = (references.erase member.id).find? id := by
    intro other id inside number
    refine kept id ?_
    have le := drafts.known inside number
    have new : call.id = s.lastId + 1 := rfl
    omega
  have behind : ∀ other ∈ receiver :: held, other.Marked names changed := by
    intro other inside
    have within : other ∈ receiver :: member :: held := by
      rcases List.mem_cons.mp inside with rfl | inside <;> simp_all
    refine Node.Marked.congr other (fun id number => ?_) (marked other within)
    exact (older within number).trans (swapped.erased h number (.inl inside))
  refine ⟨_, _, hmade, quiet, tracks, changed, h', List.forall_mem_cons.mpr ⟨?_, ?_⟩⟩
  · refine Node.marked_list.mpr ⟨root, ?_⟩
    cases member with
    | primitive value origin =>
      rw [callValues_primitive]
      exact List.forall_mem_singleton.mpr (behind _ List.mem_cons_self)
    | object | list =>
      rw [callValues_group fun _ _ same => by cases same]
      refine List.forall_mem_cons.mpr ⟨behind _ List.mem_cons_self, List.forall_mem_singleton.mpr ?_⟩
      have renamed := swapped.rename h unnamed markedMember fun _ _ same => by cases same
      refine Node.Marked.congr _ (fun id number => ?_) renamed
      rw [Node.numbers_rename] at number
      exact older (List.mem_cons_of_mem _ List.mem_cons_self) number
  · exact fun other inside => behind other (List.mem_cons_of_mem _ inside)

/-! ## Phrases -/

/-- The nodes of an operator are no references, unless its calls take the bare names of their
members. -/
def Foreign (names : List String) (op : OperatorDefinition) : Prop :=
  if op.accessor then op.nodeName = "" else op.nodeName ∉ names

lemma Foreign.not_mem {op : OperatorDefinition} (foreign : Foreign names op) (unnamed : "" ∉ names) :
    op.nodeName ∉ names := by
  rw [Foreign] at foreign
  split at foreign
  · rwa [foreign]
  · exact foreign

lemma drafts_binaryNode {op : OperatorDefinition} (foreign : Foreign names op) (unnamed : "" ∉ names)
    {left right : Node} (drafts : Drafts names s (left :: right :: held)) :
    ∃ node t, binaryNode op left right s = .ok node t ∧ Drafts names t (node :: held) := by
  rw [binaryNode]
  by_cases accessor : op.accessor = true
  · rw [Foreign, if_pos accessor] at foreign
    simp only [accessor, if_true]
    exact drafts_accessorCall foreign unnamed _ drafts
  · simp only [accessor, Bool.false_eq_true, if_false]
    exact drafts_operatorNode (foreign.not_mem unnamed) [left, right] _ drafts

/-- The name of a group is looked up among the names. -/
lemma Drafts.reference (drafts : Drafts names s held) (unnamed : "" ∉ names) {head : Head}
    (bare : ∀ name ∈ head.name, name.kind = .literal) :
    head.reference s = .ok (names.findIdx? (· = head.text)) s := by
  obtain ⟨name, opener, expands⟩ := head
  cases name with
  | none =>
    rw [Head.text, Option.map_none, Option.getD_none, findIdx?_eq_none unnamed]
    rfl
  | some name =>
    have step : Head.reference ⟨some name, opener, expands⟩ = parameterIndex? name.content :=
      if_pos (bare name rfl)
    rw [step, parameterIndex?_eq, drafts.parameter]
    rfl

lemma Drafts.perm {others : List Node} (drafts : Drafts names s held) (perm : held.Perm others) :
    Drafts names s others := by
  obtain ⟨references, h, marked⟩ := drafts.marked
  exact ⟨drafts.quiet, drafts.tracks.perm perm, references, h,
    fun node member => marked node (perm.mem_iff.mpr member)⟩

/-- A property under a new key is put behind the others. -/
lemma addProperty_of_new {options : CompileOptions} {key : Token} {value : Node}
    {properties : List (String × Node)} (new : repeatedKey options key (Node.stripProperties properties) = []) :
    addProperty options key value properties s = .ok (properties ++ [(key.content, value)]) s := by
  have absent : Node.hasKey properties key.content = false := by
    rw [repeatedKey, Node.hasKey_stripProperties] at new
    by_contra present
    simp [present] at new
  rw [addProperty, Node.insertNew]
  simp only [absent, Bool.false_eq_true, if_false]
  rfl

variable {options : CompileOptions} {word : String → Prop}

mutual

/-- **The nodes made of a phrase carry the marks of what they refer to**, if nothing is quoted and no
key is repeated. -/
theorem drafts_make (unnamed : "" ∉ names) : (phrase : Phrase) → phrase.Plain word (Foreign names) →
    phrase.complaints options = [] → {s : ParserState} → {held : List Node} → Drafts names s held →
      ∃ node t, phrase.make options s = .ok node t ∧ Drafts names t (node :: held)
  | .word token expands, plain, _, s, held, drafts => by
    rw [Phrase.make]
    exact drafts_primitive drafts plain.1 expands
  | .object head entries stop, plain, silent, s, held, drafts => by
    have bare : ∀ name ∈ head.name, name.kind = .literal := fun name inside => (plain.1 name inside).1
    rw [Phrase.complaints] at silent
    obtain ⟨properties, t, made, drafts'⟩ := drafts_makeEntries unnamed entries plain.2 [] silent
      (show Drafts names s (([] : List (String × Node)).map Prod.snd ++ held) from drafts)
    obtain ⟨node, u, completed, drafts'⟩ := drafts_completeGroup options head.name
      head.start head.expands (.properties properties stop) rfl drafts'
    refine ⟨node, u, ?_, drafts'⟩
    rw [Phrase.make, bind_ok (drafts.reference unnamed bare), bind_ok made]
    exact completed
  | .list head operation elements stop, plain, silent, s, held, drafts => by
    have bare : ∀ name ∈ head.name, name.kind = .literal := fun name inside => (plain.1 name inside).1
    rw [Phrase.complaints] at silent
    obtain ⟨values, t, made, drafts'⟩ := drafts_makeElements unnamed elements plain.2 silent drafts
    obtain ⟨node, u, completed, drafts'⟩ := drafts_completeGroup options head.name
      head.start head.expands (.values values operation stop) rfl drafts'
    refine ⟨node, u, ?_, drafts'⟩
    rw [Phrase.make, bind_ok (drafts.reference unnamed bare), bind_ok made]
    exact completed
  | .prefixed op start operand, plain, silent, s, held, drafts => by
    rw [Phrase.complaints] at silent
    obtain ⟨first, t, made, drafts⟩ := drafts_make unnamed operand plain.2 silent drafts
    rw [Phrase.make, bind_ok made]
    exact drafts_operatorNode (plain.1.not_mem unnamed) [first] _ drafts
  | .postfixed op operand stop, plain, silent, s, held, drafts => by
    rw [Phrase.complaints] at silent
    obtain ⟨first, t, made, drafts⟩ := drafts_make unnamed operand plain.2 silent drafts
    rw [Phrase.make, bind_ok made]
    exact drafts_operatorNode (plain.1.not_mem unnamed) [first] _ drafts
  | .binary op left right, plain, silent, s, held, drafts => by
    rw [Phrase.complaints] at silent
    obtain ⟨silentLeft, silentRight⟩ := List.append_eq_nil_iff.mp silent
    obtain ⟨first, t, madeLeft, drafts⟩ := drafts_make unnamed left plain.2.1 silentLeft drafts
    obtain ⟨second, u, madeRight, drafts⟩ := drafts_make unnamed right plain.2.2 silentRight drafts
    rw [Phrase.make, bind_ok madeLeft, bind_ok madeRight]
    exact drafts_binaryNode plain.1 unnamed (drafts.perm (List.Perm.swap _ _ _))

theorem drafts_makeEntries (unnamed : "" ∉ names) : (entries : List (Token × Phrase)) →
    Phrase.PlainEntries word (Foreign names) entries → (known : List (String × Node)) →
    Phrase.complaintsEntries options entries (Node.stripProperties known) = [] → {s : ParserState} →
      {held : List Node} → Drafts names s (known.map Prod.snd ++ held) →
        ∃ made t, Phrase.makeEntries options entries known s = .ok made t ∧
          Drafts names t (made.map Prod.snd ++ held)
  | [], _, known, _, s, held, drafts => by
    rw [Phrase.makeEntries]
    exact ⟨known, s, rfl, drafts⟩
  | (key, phrase) :: rest, plain, known, silent, s, held, drafts => by
    rw [Phrase.complaintsEntries] at silent
    obtain ⟨silent, silentRest⟩ := List.append_eq_nil_iff.mp silent
    obtain ⟨silentValue, new⟩ := List.append_eq_nil_iff.mp silent
    obtain ⟨value, t, made, drafts'⟩ := drafts_make unnamed phrase plain.1 silentValue drafts
    obtain ⟨value', t', made', tree, -, -⟩ := gives_make options phrase drafts.quiet
    obtain ⟨rfl, rfl⟩ := ok_unique made made'
    rw [← tree, ← Node.stripProperties_insertNew] at silentRest
    have extended : Node.insertNew known key.content value = known ++ [(key.content, value)] := by
      rw [Node.insertNew, if_neg]
      intro present
      rw [repeatedKey, Node.hasKey_stripProperties, if_pos present] at new
      cases new
    rw [extended] at silentRest
    have drafts : Drafts names t ((known ++ [(key.content, value)]).map Prod.snd ++ held) := by
      refine drafts'.perm ?_
      rw [List.map_append, List.append_assoc]
      exact List.perm_middle.symm
    rw [Phrase.makeEntries, bind_ok made, bind_ok (addProperty_of_new new)]
    exact drafts_makeEntries unnamed rest plain.2 _ silentRest drafts

theorem drafts_makeElements (unnamed : "" ∉ names) : (elements : List Phrase) →
    Phrase.PlainElements word (Foreign names) elements →
    Phrase.complaintsElements options elements = [] → {s : ParserState} → {held : List Node} →
      Drafts names s held → ∃ made t, Phrase.makeElements options elements s = .ok made t ∧
        Drafts names t (made ++ held)
  | [], _, _, s, held, drafts => by
    rw [Phrase.makeElements]
    exact ⟨[], s, rfl, drafts⟩
  | phrase :: rest, plain, silent, s, held, drafts => by
    rw [Phrase.complaintsElements] at silent
    obtain ⟨silentValue, silentRest⟩ := List.append_eq_nil_iff.mp silent
    obtain ⟨value, t, made, drafts⟩ := drafts_make unnamed phrase plain.1 silentValue drafts
    obtain ⟨values, u, madeRest, drafts⟩ :=
      drafts_makeElements unnamed rest plain.2 silentRest drafts
    refine ⟨value :: values, u, ?_, drafts.perm List.perm_middle⟩
    rw [Phrase.makeElements, bind_ok made, bind_ok madeRest]
    rfl

end

end Parser

end TreeLang
