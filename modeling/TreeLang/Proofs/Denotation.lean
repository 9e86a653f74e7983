import TreeLang.Proofs.Phrase

/-!
# The tree of a phrase

Where no macro answers nothing is ever expanded, and the nodes made of a phrase can be said
outright: they are a function of the tokens.  Numbers and places apart, that is; so trees are
compared without their origins.

* `Node.strip` — a tree without its origins.
* **`Phrase.tree`** — the tree of a phrase.
* `Phrase.complaints` — the reports about it, which are about repeated keys.
* `Phrase.names`, `Phrase.offered` — the names of its nodes, and those that the macros are asked about.
* **`Parser.gives_make_of_still`** — where no macro has such a name, this tree is made and these
  reports are given.
-/

namespace TreeLang

/-! ## Trees without origins -/

namespace Node

mutual

/-- The tree without its origins. -/
def strip : Node → Node
  | .primitive value _ => .plain value
  | .object name properties _ => .objectOf name (stripProperties properties)
  | .list name values operation _ => .listOf name (stripValues values) operation

/-- `strip` at every property. -/
def stripProperties : List (String × Node) → List (String × Node)
  | [] => []
  | (key, value) :: rest => (key, value.strip) :: stripProperties rest

/-- `strip` at every value. -/
def stripValues : List Node → List Node
  | [] => []
  | value :: rest => value.strip :: stripValues rest

end

lemma stripProperties_eq_map (properties : List (String × Node)) :
    stripProperties properties = properties.map fun property => (property.1, property.2.strip) := by
  induction properties with
  | nil => rfl
  | cons property rest ih => simp [stripProperties, ih]

lemma stripValues_eq_map (values : List Node) : stripValues values = values.map strip := by
  induction values with
  | nil => rfl
  | cons value rest ih => simp [stripValues, ih]

@[simp] lemma strip_withOrigin (node : Node) (origin : Origin) :
    (node.withOrigin origin).strip = node.strip := by
  cases node <;> rfl

@[simp] lemma strip_rename (node : Node) (name : String) :
    (node.rename name).strip = node.strip.rename name := by
  cases node <;> rfl

@[simp] lemma invokedName_strip (node : Node) :
    Parser.invokedName node.strip = Parser.invokedName node := by
  cases node <;> rfl

lemma lookup_stripProperties (properties : List (String × Node)) (key : String) :
    lookup (stripProperties properties) key = (lookup properties key).map strip := by
  induction properties with
  | nil => rfl
  | cons property rest ih =>
    obtain ⟨other, value⟩ := property
    by_cases h : other = key
    · simp [stripProperties, lookup, h]
    · simpa [stripProperties, lookup, h] using ih

@[simp] lemma hasKey_stripProperties (properties : List (String × Node)) (key : String) :
    hasKey (stripProperties properties) key = hasKey properties key := by
  simp [hasKey, lookup_stripProperties]

@[simp] lemma stripProperties_insertNew (properties : List (String × Node)) (key : String)
    (value : Node) :
    stripProperties (insertNew properties key value)
      = insertNew (stripProperties properties) key value.strip := by
  simp only [insertNew, hasKey_stripProperties]
  split
  · rfl
  · simp [stripProperties_eq_map]

end Node

/-! ## Trees and complaints -/

/-- The tree of an accessor, of its receiver and its member. -/
def accessedTree (op : OperatorDefinition) (receiver member : Node) : Node :=
  let values := match member with
    | .primitive _ _ => [receiver]
    | operand => [receiver, operand.rename ""]
  .listOf (op.nodeName ++ Parser.invokedName member) values false

/-- The tree of a binary operator, of its operands. -/
def binaryTree (op : OperatorDefinition) (left right : Node) : Node :=
  if op.accessor then accessedTree op left right else .listOf op.nodeName [left, right] true

/-- The tree of a group, of its content. -/
def groupTree (options : CompileOptions) (name : String) (operation : Bool) (values : List Node) :
    Node :=
  match name.isEmpty && options.collapseUnaryOperation, operation, values with
  | true, true, [only] => only
  | _, _, _ => .listOf name values operation

/-- The complaint about a key that is taken, if it is. -/
def repeatedKey (options : CompileOptions) (key : Token) (known : List (String × Node)) :
    List Report :=
  if Node.hasKey known key.content then
    [(Report.errorAt key.start (.duplicateKey key.content)).withSeverity
      options.duplicatePropertySeverity]
  else []

namespace Phrase

variable (options : CompileOptions)

mutual

/-- **The tree of a phrase.** -/
def tree : Phrase → Node
  | .word token _ => .plain token.content
  | .object head entries _ => .objectOf head.text (treeEntries entries [])
  | .list head operation elements _ => groupTree options head.text operation (treeElements elements)
  | .prefixed op _ operand => .listOf op.nodeName [tree operand] true
  | .postfixed op operand _ => .listOf op.nodeName [tree operand] true
  | .binary op left right => binaryTree op (tree left) (tree right)

/-- The properties of entries, behind those known already. -/
def treeEntries : List (Token × Phrase) → List (String × Node) → List (String × Node)
  | [], known => known
  | (key, phrase) :: rest, known =>
    treeEntries rest (Node.insertNew known key.content (tree phrase))

/-- The values of elements. -/
def treeElements : List Phrase → List Node
  | [] => []
  | phrase :: rest => tree phrase :: treeElements rest

end

mutual

/-- The reports about a phrase. -/
def complaints : Phrase → List Report
  | .word _ _ => []
  | .object _ entries _ => complaintsEntries entries []
  | .list _ _ elements _ => complaintsElements elements
  | .prefixed _ _ operand => complaints operand
  | .postfixed _ operand _ => complaints operand
  | .binary _ left right => complaints left ++ complaints right

/-- The reports about entries, behind those known already. -/
def complaintsEntries : List (Token × Phrase) → List (String × Node) → List Report
  | [], _ => []
  | (key, phrase) :: rest, known =>
    complaints phrase ++ repeatedKey options key known ++
      complaintsEntries rest (Node.insertNew known key.content (tree options phrase))

/-- The reports about elements. -/
def complaintsElements : List Phrase → List Report
  | [] => []
  | phrase :: rest => complaints phrase ++ complaintsElements rest

end

mutual

/-- The names of the nodes of a phrase. -/
def names : Phrase → List String
  | .word token _ => [token.content]
  | .object head entries _ => head.text :: namesEntries entries
  | .list head _ elements _ => head.text :: namesElements elements
  | .prefixed op _ operand => op.nodeName :: names operand
  | .postfixed op operand _ => op.nodeName :: names operand
  | .binary op left right =>
    (if op.accessor then op.nodeName ++ Parser.invokedName (tree options right) else op.nodeName) ::
      (names left ++ names right)

/-- `names` of every value of some entries. -/
def namesEntries : List (Token × Phrase) → List String
  | [] => []
  | (_, phrase) :: rest => names phrase ++ namesEntries rest

/-- `names` of every element. -/
def namesElements : List Phrase → List String
  | [] => []
  | phrase :: rest => names phrase ++ namesElements rest

end

mutual

/-- The names that a macro may answer to: those of a phrase, except for quoted words, which are not
offered. -/
def offered : Phrase → List String
  | .word token _ => if token.kind = .quoted then [] else [token.content]
  | .object head entries _ => head.text :: offeredEntries entries
  | .list head _ elements _ => head.text :: offeredElements elements
  | .prefixed op _ operand => op.nodeName :: offered operand
  | .postfixed op operand _ => op.nodeName :: offered operand
  | .binary op left right =>
    (if op.accessor then op.nodeName ++ Parser.invokedName (tree options right) else op.nodeName) ::
      (offered left ++ offered right)

/-- `offered` of every value of some entries. -/
def offeredEntries : List (Token × Phrase) → List String
  | [] => []
  | (_, phrase) :: rest => offered phrase ++ offeredEntries rest

/-- `offered` of every element. -/
def offeredElements : List Phrase → List String
  | [] => []
  | phrase :: rest => offered phrase ++ offeredElements rest

end

mutual

lemma offered_subset_names : (phrase : Phrase) → phrase.offered options ⊆ phrase.names options
  | .word token expands => by
    rw [offered, names]
    split
    · exact List.nil_subset _
    · exact List.Subset.refl _
  | .object head entries stop => by
    rw [offered, names]
    exact List.cons_subset_cons _ (offeredEntries_subset_names entries)
  | .list head operation elements stop => by
    rw [offered, names]
    exact List.cons_subset_cons _ (offeredElements_subset_names elements)
  | .prefixed op start operand => by
    rw [offered, names]
    exact List.cons_subset_cons _ (offered_subset_names operand)
  | .postfixed op operand stop => by
    rw [offered, names]
    exact List.cons_subset_cons _ (offered_subset_names operand)
  | .binary op left right => by
    rw [offered, names]
    exact List.cons_subset_cons _ (List.append_subset.mpr
      ⟨List.subset_append_of_subset_left _ (offered_subset_names left),
        List.subset_append_of_subset_right _ (offered_subset_names right)⟩)

lemma offeredEntries_subset_names : (entries : List (Token × Phrase)) →
    offeredEntries options entries ⊆ namesEntries options entries
  | [] => List.nil_subset _
  | (_, phrase) :: rest => by
    rw [offeredEntries, namesEntries]
    exact List.append_subset.mpr ⟨List.subset_append_of_subset_left _ (offered_subset_names phrase),
      List.subset_append_of_subset_right _ (offeredEntries_subset_names rest)⟩

lemma offeredElements_subset_names : (elements : List Phrase) →
    offeredElements options elements ⊆ namesElements options elements
  | [] => List.nil_subset _
  | phrase :: rest => by
    rw [offeredElements, namesElements]
    exact List.append_subset.mpr ⟨List.subset_append_of_subset_left _ (offered_subset_names phrase),
      List.subset_append_of_subset_right _ (offeredElements_subset_names rest)⟩

end

end Phrase

/-! ## Making nodes that no macro answers to -/

namespace Parser

/-- **No macro answers to the names that are heard**, and expansion is not too deep to ask.  Unless
`drafting` allows for it, neither is a template being read nor an invocation being expanded. -/
structure Still (heard : String → Prop) (drafting : Bool) (s : ParserState) : Prop where
  macros : ∀ entry ∈ s.visible.macros.definitions, ¬ heard entry.value.signature.name
  depth : s.depth ≤ maxNesting
  recovering : s.recovering = false
  outside : drafting = false → s.scope = none ∧ s.depth = 0

/-- **No macro answers**: none is in force, and expansion is not too deep to ask. -/
structure Quiet (s : ParserState) : Prop where
  macros : s.visible.macros = .empty
  depth : s.depth ≤ maxNesting
  recovering : s.recovering = false

/-- A step gives a value with a property and some reports, and what follows is still as before. -/
def Gives {α : Type} (heard : String → Prop) (drafting : Bool) (step : Parser α) (s : ParserState)
    (property : α → Prop) (reports : List Report) : Prop :=
  ∃ value t, step s = .ok value t ∧ property value ∧ Still heard drafting t ∧
    t.reports = s.reports ++ reports

variable {α β : Type} {s : ParserState} {heard : String → Prop} {drafting : Bool}

/-- Without macros no name is answered to. -/
lemma Quiet.still (quiet : Quiet s) : Still (fun _ => True) true s :=
  ⟨by simp [quiet.macros, MacroRegistry.empty], quiet.depth, quiet.recovering, by simp⟩

lemma Still.rescope (still : Still heard drafting s) (change : TemplateScope → TemplateScope) :
    Still heard drafting { s with scope := s.scope.map change } :=
  ⟨still.macros, still.depth, still.recovering, fun alone => by simp [still.outside alone]⟩

lemma Gives.pure {property : α → Prop} {value : α} (still : Still heard drafting s)
    (h : property value) : Gives heard drafting (Pure.pure value) s property [] :=
  ⟨value, s, rfl, h, still, by simp⟩

lemma Gives.bind {step : Parser α} {next : α → Parser β} {property : α → Prop}
    {result : β → Prop} {first second : List Report}
    (begun : Gives heard drafting step s property first)
    (done : ∀ value t, Still heard drafting t → property value →
      Gives heard drafting (next value) t result second) :
    Gives heard drafting (step >>= next) s result (first ++ second) := by
  obtain ⟨value, t, hstep, h, still, reports⟩ := begun
  obtain ⟨final, u, hnext, h, still, more⟩ := done value t still h
  refine ⟨final, u, by rw [bind_ok hstep, hnext], h, still, ?_⟩
  rw [more, reports]
  exact Array.ext' (by simp)

/-- A step that does not report in front of one that may. -/
lemma Gives.silent_bind {step : Parser α} {next : α → Parser β} {property : α → Prop}
    {result : β → Prop} {second : List Report} (begun : Gives heard drafting step s property [])
    (done : ∀ value t, Still heard drafting t → property value →
      Gives heard drafting (next value) t result second) :
    Gives heard drafting (step >>= next) s result second :=
  begun.bind done

/-- A step that looks at the state first. -/
lemma Gives.get {next : ParserState → Parser β} {property : β → Prop} {reports : List Report}
    (h : Gives heard drafting (next s) s property reports) :
    Gives heard drafting (MonadState.get >>= next) s property reports :=
  h

lemma Gives.mono {step : Parser α} {property weaker : α → Prop} {reports : List Report}
    (gives : Gives heard drafting step s property reports)
    (h : ∀ value, property value → weaker value) : Gives heard drafting step s weaker reports := by
  obtain ⟨value, t, hstep, has, rest⟩ := gives
  exact ⟨value, t, hstep, h value has, rest⟩

lemma gives_freshId (still : Still heard drafting s) :
    Gives heard drafting freshId s (fun _ => True) [] :=
  ⟨_, _, rfl, trivial, ⟨still.macros, still.depth, still.recovering, still.outside⟩, by simp⟩

lemma gives_parameterIndex? (still : Still heard drafting s) (word : String) :
    Gives heard drafting (parameterIndex? word) s (fun _ => True) [] :=
  ⟨_, s, rfl, trivial, still, by simp⟩

lemma gives_rescope (still : Still heard drafting s) (change : TemplateScope → TemplateScope) :
    Gives heard drafting (modify fun s => { s with scope := s.scope.map change } : Parser Unit) s
      (fun _ => True) [] :=
  ⟨_, _, rfl, trivial, still.rescope change, by simp⟩

lemma gives_markReference (still : Still heard drafting s) (id : Nat) (reference : Reference) :
    Gives heard drafting (markReference id reference) s (fun _ => True) [] :=
  gives_rescope still fun scope => { scope with references := scope.references.insert id reference }

lemma gives_note (still : Still heard drafting s) (report : Report) :
    Gives heard drafting (note report) s (fun _ => True) [report] := by
  refine ⟨(), { s with reports := s.reports.push report }, ?_, trivial,
    ⟨still.macros, still.depth, still.recovering, still.outside⟩, by simp⟩
  rw [note_eq, still.recovering]
  rfl

/-- To a name that is heard no macro answers. -/
lemma Still.resolve (still : Still heard drafting s) {name : String} (said : heard name)
    (kind : MacroKind) (node : Node) : s.visible.macros.resolve name kind node = .ok none := by
  have nothing : s.visible.macros.group ⟨name, kind⟩ = [] := by
    refine List.filter_eq_nil_iff.mpr fun entry member same => still.macros entry member ?_
    rw [of_decide_eq_true same]
    exact said
  simp [MacroRegistry.resolve, nothing]

lemma Still.invokeWithin_eq (still : Still heard drafting s) {node : Node}
    (said : heard (invokedName node)) (levels : Nat) (kind : MacroKind) :
    invokeWithin (levels + 1) node kind s = .ok node s :=
  invokeWithin_unanswered (still.resolve said kind node)

/-- What no macro answers to stays what it is. -/
lemma Still.invoke_eq (still : Still heard drafting s) {node : Node}
    (said : heard (invokedName node)) (kind : MacroKind) : invoke node kind s = .ok node s := by
  have step : invoke node kind s = invokeWithin (maxNesting - s.depth + 1) node kind s := rfl
  rw [step, still.invokeWithin_eq said]

lemma gives_invoke (still : Still heard drafting s) {node : Node} (said : heard (invokedName node))
    (kind : MacroKind) : Gives heard drafting (invoke node kind) s (· = node) [] :=
  ⟨node, s, still.invoke_eq said kind, rfl, still, by simp⟩

lemma gives_expand (still : Still heard drafting s) {node : Node} (said : heard (invokedName node))
    (kind : MacroKind) : Gives heard drafting (expand node kind) s (· = node) [] := by
  refine .get ?_
  cases hscope : s.scope with
  | none => exact gives_invoke still said kind
  | some scope =>
    dsimp only
    split
    · refine ⟨node, _, rfl, rfl, ⟨still.macros, still.depth, still.recovering, fun alone => ?_⟩,
        by simp⟩
      rw [(still.outside alone).1] at hscope
      cases hscope
    · exact gives_invoke still said kind

/-! ### Nodes of every sort -/

lemma gives_reference (still : Still heard drafting s) (head : Head) :
    Gives heard drafting head.reference s (fun _ => True) [] := by
  rw [Head.reference]
  split
  · split
    · exact gives_parameterIndex? still _
    · exact .pure still trivial
  · exact .pure still trivial

lemma gives_primitive (still : Still heard drafting s) {token : Token}
    (said : token.kind ≠ .quoted → heard token.content) (expands : Bool) :
    Gives heard drafting (primitive token expands) s
      (fun node => node.strip = .plain token.content) [] := by
  refine (gives_freshId still).silent_bind fun id _ still _ => ?_
  have leaf : ∀ {t}, Still heard drafting t →
      Gives heard drafting (Pure.pure (Node.primitive token.content ⟨id, ⟨token.start, token.stop⟩⟩)) t
        (fun node => node.strip = .plain token.content) [] :=
    fun still => .pure still rfl
  dsimp only
  split
  · exact leaf still
  · rename_i bare
    refine (gives_parameterIndex? still _).silent_bind fun index _ still _ => ?_
    cases index with
    | some parameter =>
      exact (gives_markReference still _ _).silent_bind fun _ _ still _ => leaf still
    | none =>
      dsimp only
      split
      · have offered := gives_invoke still
          (show heard (invokedName (.primitive token.content ⟨id, ⟨token.start, token.stop⟩⟩)) from
            said bare) .constant
        exact offered.mono fun node h => by rw [h]; rfl
      · exact leaf still

lemma gives_operatorNode (still : Still heard drafting s) {op : OperatorDefinition}
    (said : heard op.nodeName) (operands : List Node) (span : Span) :
    Gives heard drafting (operatorNode op operands span) s
      (fun node => node.strip = .listOf op.nodeName (operands.map Node.strip) true) [] :=
  (gives_freshId still).silent_bind fun _ _ still _ =>
    (gives_expand still (by simpa [invokedName, Node.value?, Node.name?] using said) _).mono
      fun node h => by rw [h, Node.strip, Node.stripValues_eq_map]

lemma gives_accessorCall (still : Still heard drafting s) {op : OperatorDefinition}
    {receiver member : Node} (said : heard (op.nodeName ++ invokedName member)) (span : Span) :
    Gives heard drafting (accessorCall op receiver member span) s
      (fun node => node.strip = accessedTree op receiver.strip member.strip) [] := by
  refine .get ?_
  refine (gives_rescope still fun scope =>
    { scope with references := scope.references.erase member.id }).silent_bind fun _ _ still _ => ?_
  refine (gives_freshId still).silent_bind fun id _ still _ => ?_
  have call : ∀ {t : ParserState} (values : List Node), Still heard drafting t →
      (Node.list (op.nodeName ++ invokedName member) values false ⟨id, span⟩).strip
        = accessedTree op receiver.strip member.strip →
      Gives heard drafting (expand (.list (op.nodeName ++ invokedName member) values false ⟨id, span⟩)
        (.ofMember member)) t
        (fun node => node.strip = accessedTree op receiver.strip member.strip) [] :=
    fun values still h =>
      (gives_expand still (by simpa [invokedName, Node.value?, Node.name?] using said) _).mono
        fun made same => same ▸ h
  cases s.scope.bind fun scope => scope.references.find? member.id with
  | none => exact call _ still (by cases member <;> rfl)
  | some reference =>
    exact (gives_markReference still _ _).silent_bind fun _ _ still _ =>
      call _ still (by cases member <;> rfl)

lemma gives_binaryNode (still : Still heard drafting s) {op : OperatorDefinition} {left right : Node}
    (said : heard (if op.accessor then op.nodeName ++ invokedName right else op.nodeName)) :
    Gives heard drafting (binaryNode op left right) s
      (fun node => node.strip = binaryTree op left.strip right.strip) [] := by
  rw [binaryNode, binaryTree]
  split
  · rename_i accessor
    rw [if_pos accessor] at said
    exact gives_accessorCall still said _
  · rename_i accessor
    rw [if_neg accessor] at said
    exact gives_operatorNode still said _ _

lemma gives_addProperty (still : Still heard drafting s) (options : CompileOptions) (key : Token)
    (value : Node) (properties : List (String × Node)) :
    Gives heard drafting (addProperty options key value properties) s
      (fun made => Node.stripProperties made
        = Node.insertNew (Node.stripProperties properties) key.content value.strip)
      (repeatedKey options key (Node.stripProperties properties)) := by
  rw [addProperty, repeatedKey, Node.hasKey_stripProperties]
  split
  · refine (gives_note still _).bind fun _ _ still _ => ?_
    exact (gives_rescope still (·.drop value)).silent_bind fun _ _ still _ =>
      .pure still (Node.stripProperties_insertNew _ _ _)
  · exact .pure still (Node.stripProperties_insertNew _ _ _)

/-- The tree of what a group holds. -/
def contentTree (options : CompileOptions) (name : String) : GroupContent → Node
  | .properties entries _ => .objectOf name (Node.stripProperties entries)
  | .values elements operation _ => groupTree options name operation (elements.map Node.strip)

lemma gives_completeGroup (still : Still heard drafting s) (options : CompileOptions)
    {name : Option Token} (said : heard ((name.map Token.content).getD "")) (start : Nat)
    (expands : Bool) (reference : Option Nat) (content : GroupContent) :
    Gives heard drafting (completeGroup options name start expands reference content) s
      (fun node => node.strip = contentTree options ((name.map Token.content).getD "") content)
      [] := by
  simp only [completeGroup]
  split
  · rename_i only stop collapses
    refine .pure still ?_
    simp [contentTree, groupTree, collapses]
  · rename_i content _ _ kept
    -- Not being the only element of a group that collapses, the content makes a node.
    have tree : ∀ id, (content.node ((name.map Token.content).getD "") id start).strip
        = contentTree options ((name.map Token.content).getD "") content := by
      intro id
      cases content with
      | properties entries stop => rfl
      | values elements operation stop =>
        simp only [GroupContent.node, Node.strip, Node.stripValues_eq_map, contentTree, groupTree]
        split
        · rename_i only collapses hmap
          obtain ⟨element, rfl, -⟩ := List.map_eq_singleton_iff.mp hmap
          exact absurd rfl (kept element stop collapses)
        · rfl
    have named : ∀ id, invokedName (content.node ((name.map Token.content).getD "") id start)
        = (name.map Token.content).getD "" := by
      intro id
      cases content <;> rfl
    refine (gives_freshId still).silent_bind fun id _ still _ => ?_
    have offered : ∀ {t : ParserState} (kind : MacroKind), Still heard drafting t →
        Gives heard drafting (if expands then
            expand (content.node ((name.map Token.content).getD "") id start) kind
          else (Pure.pure (content.node ((name.map Token.content).getD "") id start) : Parser Node)) t
          (fun node => node.strip
            = contentTree options ((name.map Token.content).getD "") content) [] := by
      intro t kind still
      split
      · exact (gives_expand still (by rw [named]; exact said) _).mono fun made same => same ▸ tree id
      · exact .pure still (tree id)
    cases reference with
    | none => exact offered _ still
    | some parameter =>
      exact (gives_markReference still _ _).silent_bind fun _ _ still _ => offered _ still

/-! ### Phrases -/

mutual

/-- **Where no macro answers the tree of a phrase is made**, and its reports are given.  No macro is asked
about quoted words. -/
theorem gives_make_of_still (options : CompileOptions) :
    (phrase : Phrase) → (∀ name ∈ phrase.offered options, heard name) → {s : ParserState} →
      Still heard drafting s →
      Gives heard drafting (phrase.make options) s (fun node => node.strip = phrase.tree options)
        (phrase.complaints options)
  | .word token expands, said, s, still => by
    rw [Phrase.make, Phrase.tree, Phrase.complaints]
    refine gives_primitive still (fun bare => said _ ?_) expands
    rw [Phrase.offered, if_neg bare]
    exact List.mem_singleton.mpr rfl
  | .object head entries stop, said, s, still => by
    obtain ⟨named, said⟩ := List.forall_mem_cons.mp said
    rw [Phrase.make, Phrase.tree, Phrase.complaints]
    refine (gives_reference still head).silent_bind fun _ _ still _ => ?_
    rw [← List.append_nil (Phrase.complaintsEntries _ _ _)]
    refine (gives_makeEntries_of_still options entries [] said still).bind fun made _ still h => ?_
    rw [Node.stripProperties] at h
    rw [← h]
    exact gives_completeGroup still _ named _ _ _ _
  | .list head operation elements stop, said, s, still => by
    obtain ⟨named, said⟩ := List.forall_mem_cons.mp said
    rw [Phrase.make, Phrase.tree, Phrase.complaints]
    refine (gives_reference still head).silent_bind fun _ _ still _ => ?_
    rw [← List.append_nil (Phrase.complaintsElements _ _)]
    refine (gives_makeElements_of_still options elements said still).bind fun made _ still h => ?_
    rw [← h]
    exact gives_completeGroup still _ named _ _ _ _
  | .prefixed op start operand, said, s, still => by
    obtain ⟨named, said⟩ := List.forall_mem_cons.mp said
    rw [Phrase.make, Phrase.tree, Phrase.complaints, ← List.append_nil (Phrase.complaints _ _)]
    refine (gives_make_of_still options operand said still).bind fun node _ still h => ?_
    rw [← h]
    exact gives_operatorNode still named _ _
  | .postfixed op operand stop, said, s, still => by
    obtain ⟨named, said⟩ := List.forall_mem_cons.mp said
    rw [Phrase.make, Phrase.tree, Phrase.complaints, ← List.append_nil (Phrase.complaints _ _)]
    refine (gives_make_of_still options operand said still).bind fun node _ still h => ?_
    rw [← h]
    exact gives_operatorNode still named _ _
  | .binary op left right, said, s, still => by
    obtain ⟨named, said⟩ := List.forall_mem_cons.mp said
    obtain ⟨saidLeft, saidRight⟩ := List.forall_mem_append.mp said
    rw [Phrase.make, Phrase.tree, Phrase.complaints]
    refine (gives_make_of_still options left saidLeft still).bind fun first _ still hfirst => ?_
    rw [← List.append_nil (Phrase.complaints options right)]
    refine (gives_make_of_still options right saidRight still).bind fun second _ still hsecond => ?_
    rw [← hfirst, ← hsecond]
    refine gives_binaryNode still ?_
    rw [← Node.invokedName_strip, hsecond]
    exact named

theorem gives_makeEntries_of_still (options : CompileOptions) :
    (entries : List (Token × Phrase)) → (known : List (String × Node)) →
      (∀ name ∈ Phrase.offeredEntries options entries, heard name) → {s : ParserState} →
      Still heard drafting s → Gives heard drafting (Phrase.makeEntries options entries known) s
        (fun made => Node.stripProperties made
          = Phrase.treeEntries options entries (Node.stripProperties known))
        (Phrase.complaintsEntries options entries (Node.stripProperties known))
  | [], known, said, s, still => by
    rw [Phrase.makeEntries, Phrase.treeEntries, Phrase.complaintsEntries]
    exact .pure still rfl
  | (key, phrase) :: rest, known, said, s, still => by
    obtain ⟨saidPhrase, saidRest⟩ := List.forall_mem_append.mp said
    rw [Phrase.makeEntries, Phrase.treeEntries, Phrase.complaintsEntries, List.append_assoc]
    refine (gives_make_of_still options phrase saidPhrase still).bind fun value _ still h => ?_
    refine (gives_addProperty still options key value known).bind fun extended _ still same => ?_
    rw [← h, ← same]
    exact gives_makeEntries_of_still options rest extended saidRest still

theorem gives_makeElements_of_still (options : CompileOptions) :
    (elements : List Phrase) → (∀ name ∈ Phrase.offeredElements options elements, heard name) →
      {s : ParserState} → Still heard drafting s →
      Gives heard drafting (Phrase.makeElements options elements) s
        (fun made => made.map Node.strip = Phrase.treeElements options elements)
        (Phrase.complaintsElements options elements)
  | [], said, s, still => by
    rw [Phrase.makeElements, Phrase.treeElements, Phrase.complaintsElements]
    exact .pure still rfl
  | phrase :: rest, said, s, still => by
    obtain ⟨saidPhrase, saidRest⟩ := List.forall_mem_append.mp said
    rw [Phrase.makeElements, Phrase.treeElements, Phrase.complaintsElements]
    refine (gives_make_of_still options phrase saidPhrase still).bind fun node _ still h => ?_
    rw [← List.append_nil (Phrase.complaintsElements options rest)]
    refine (gives_makeElements_of_still options rest saidRest still).bind fun nodes _ still hrest => ?_
    exact .pure still (by rw [List.map_cons, h, hrest])

end

/-- **Without macros the tree of a phrase is made**, and its reports are given. -/
theorem gives_make (options : CompileOptions) (phrase : Phrase) {s : ParserState} (quiet : Quiet s) :
    Gives (fun _ => True) true (phrase.make options) s (fun node => node.strip = phrase.tree options)
      (phrase.complaints options) :=
  gives_make_of_still options phrase (fun _ _ => trivial) quiet.still

end Parser

end TreeLang
