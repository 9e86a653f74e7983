import TreeLang.Proofs.Making
import TreeLang.Proofs.Numbers

/-!
# Invocations

A node that invokes a macro gives way to what the macro makes of it: its template, with parts of
the node put in.  So whatever is true of the template, of the fallbacks and of the node, and goes
along when trees are taken apart and put together, is true of the result.  Nor is an invocation ever
broken off, as long as a definition has the parameters it speaks of.

* `MacroDefinition.Sound` — a definition has the parameters that its kind and its template ask for.
* `Yields` — a computation that is not broken off, and what its result is like.
* `Node.Inherited` — what goes along when trees are taken apart and put together.
* `yields_bind`, `yields_apply` — using a macro.
* **`invoke_inherits`** — an invocation comes to an end, and its result inherits.
-/

namespace TreeLang

/-! ## Sound definitions -/

/-- How many parameters a macro of a kind may have. -/
def MacroKind.Takes : MacroKind → Nat → Prop
  | .constant, count => count = 0
  | .access, count => count = 1
  | kind, count => kind.implicit ≤ count

/-- **A definition has the parameters that it needs**, and its template has no numbers left. -/
structure MacroDefinition.Sound (definition : MacroDefinition) : Prop where
  arity : definition.signature.kind.Takes definition.parameters.length
  targets : ∀ replacement ∈ definition.replacements,
    replacement.parameter < definition.parameters.length
  forgets : definition.template.Within (· = 0)

/-! ## Computations that are not broken off -/

section Yields

variable {α β : Type}

/-- **A computation is not broken off by a fault**, and a result has a property. -/
def Yields (property : α → Prop) : Except Failure α → Prop
  | .ok value => property value
  | .error (.mistake _) => True
  | .error (.fault _) => False

lemma Yields.bind {step : Except Failure α} {next : α → Except Failure β} {property : α → Prop}
    {result : β → Prop} (first : Yields property step)
    (second : ∀ value, property value → Yields result (next value)) :
    Yields result (step >>= next) := by
  match step, first with
  | .ok value, h => exact second value h
  | .error (.mistake _), _ => trivial

lemma Yields.mono {step : Except Failure α} {property weaker : α → Prop}
    (yields : Yields property step) (h : ∀ value, property value → weaker value) :
    Yields weaker step := by
  match step, yields with
  | .ok value, has => exact h value has
  | .error (.mistake _), _ => trivial

lemma yields_mapM {step : α → Except Failure β} {property : β → Prop} {items : List α}
    (h : ∀ item ∈ items, Yields property (step item)) :
    Yields (fun results => results.length = items.length ∧ ∀ result ∈ results, property result)
      (items.mapM step) := by
  induction items with
  | nil => exact ⟨rfl, nofun⟩
  | cons item rest ih =>
    rw [List.mapM_cons]
    refine (h item List.mem_cons_self).bind fun first hfirst => ?_
    refine (ih fun item member => h item (List.mem_cons_of_mem _ member)).bind fun others hothers =>
      ?_
    refine ⟨by simp [hothers.1], fun result member => ?_⟩
    rcases List.mem_cons.mp member with rfl | member
    · exact hfirst
    · exact hothers.2 result member

lemma yields_foldlM {step : β → α → Except Failure β} {property : β → Prop} {items : List α}
    {start : β} (begun : property start)
    (h : ∀ value, property value → ∀ item ∈ items, Yields property (step value item)) :
    Yields property (items.foldlM step start) := by
  induction items generalizing start with
  | nil => exact begun
  | cons item rest ih =>
    rw [List.foldlM_cons]
    refine (h start begun item List.mem_cons_self).bind fun value hvalue => ?_
    exact ih hvalue fun value has item member => h value has item (List.mem_cons_of_mem _ member)

end Yields

/-! ## What goes along with trees -/

/-- **A property goes along** when a tree is taken apart, changed, or renamed. -/
structure Node.Inherited (good : Node → Prop) : Prop where
  child : ∀ {node child step}, good node → node.child? step = some child → good child
  modifyChild : ∀ {node changed : Node} {change step}, good node →
    node.modifyChild? change step = some changed →
      (∀ old new, good old → change old = some new → good new) → good changed
  rename : ∀ {node} name, good node → good (node.rename name)
  withSpan : ∀ {node} span, good node → good (node.withSpan span)

namespace Node.Inherited

variable {good : Node → Prop} (inherited : Node.Inherited good)

include inherited

lemma get? {node target : Node} {path : Path} (h : good node) (found : node.get? path = some target) :
    good target := by
  induction path generalizing node with
  | nil =>
    cases found
    exact h
  | cons step rest ih =>
    obtain ⟨child, hchild, found⟩ := Option.bind_eq_some_iff.mp found
    exact ih (inherited.child h hchild) found

lemma modify? {change : Node → Option Node} {node changed : Node} {path : Path} (h : good node)
    (hchanged : node.modify? change path = some changed)
    (brought : ∀ old new, good old → change old = some new → good new) : good changed := by
  induction path generalizing node changed with
  | nil => exact brought node changed h hchanged
  | cons step rest ih =>
    exact inherited.modifyChild h hchanged fun old new hold hnew => ih hold hnew

lemma set? {node value changed : Node} {path : Path} (h : good node) (hvalue : good value)
    (hchanged : node.set? path value = some changed) : good changed :=
  inherited.modify? h hchanged fun _ _ _ same => Option.some.inj same ▸ hvalue

lemma property {node value : Node} {properties : List (String × Node)} (h : good node)
    (holds : node.properties? = some properties) (key : String)
    (found : lookup properties key = some value) : good value := by
  cases node with
  | object name entries origin =>
    cases holds
    have found : (object name properties origin).child? (.key key) = some value := found
    exact inherited.child h found
  | _ => cases holds

lemma value {node value : Node} {values : List Node} (h : good node)
    (holds : node.values? = some values) (index : Nat) (found : values[index]? = some value) :
    good value := by
  cases node with
  | list name entries operation origin =>
    cases holds
    have found : (list name values operation origin).child? (.index index) = some value := found
    exact inherited.child h found
  | _ => cases holds

end Node.Inherited

/-- All numbers of a tree have a property: this goes along. -/
lemma Node.inherited_within (property : Nat → Prop) : Node.Inherited (Node.Within property) where
  child := fun h found => h.child found
  modifyChild := fun h changed brought => h.modifyChild changed brought
  rename := fun name h => h.rename name
  withSpan := fun span h => h.withSpan span

/-! ## Using a macro -/

namespace MacroDefinition

variable {good : Node → Prop} {definition : MacroDefinition}

/-- The fallbacks of a definition are good. -/
def Fallbacks (good : Node → Prop) (definition : MacroDefinition) : Prop :=
  ∀ parameter ∈ definition.parameters, ∀ node ∈ parameter.fallback, good node

lemma yields_argumentOr {given : Option Node} {parameter : Parameter} (missing : Cause)
    (hgiven : ∀ node ∈ given, good node) (hfallback : ∀ node ∈ parameter.fallback, good node) :
    Yields good (argumentOr given parameter missing) := by
  unfold argumentOr
  split
  · exact hgiven _ rfl
  · rename_i h
    exact hfallback _ h
  · trivial

/-- What a binding is like: it has an argument for each parameter, and they are good. -/
def Binds (good : Node → Prop) (definition : MacroDefinition) (binding : Binding) : Prop :=
  binding.arguments.length = definition.parameters.length ∧ ∀ node ∈ binding.arguments, good node

lemma binds_append {bound arguments : List Node} {skip : Nat} {warnings : List Report}
    (hbound : bound.length = skip ∧ ∀ node ∈ bound, good node)
    (enough : skip ≤ definition.parameters.length)
    (h : arguments.length = (definition.parameters.drop skip).length ∧
      ∀ node ∈ arguments, good node) :
    definition.Binds good ⟨bound ++ arguments, warnings⟩ := by
  refine ⟨?_, fun node member => ?_⟩
  · rw [List.length_append, hbound.1, h.1, List.length_drop]
    omega
  · rcases List.mem_append.mp member with member | member
    · exact hbound.2 node member
    · exact h.2 node member

lemma yields_bindKeyed (fallbacks : definition.Fallbacks good) {skip : Nat} {bound : List Node}
    {properties : List (String × Node)}
    (hbound : bound.length = skip ∧ ∀ node ∈ bound, good node)
    (enough : skip ≤ definition.parameters.length)
    (h : ∀ key value, Node.lookup properties key = some value → good value) :
    Yields (definition.Binds good) (definition.bindKeyed skip bound properties) := by
  rw [bindKeyed]
  refine (yields_mapM fun parameter member => ?_).bind fun arguments harguments =>
    binds_append hbound enough harguments
  exact yields_argumentOr _ (fun node given => h _ _ given)
    (fallbacks parameter (List.mem_of_mem_drop member))

lemma yields_bindPositional (fallbacks : definition.Fallbacks good) {skip : Nat}
    {bound values : List Node} (hbound : bound.length = skip ∧ ∀ node ∈ bound, good node)
    (enough : skip ≤ definition.parameters.length)
    (h : ∀ (index : Nat) value, values[index]? = some value → good value) :
    Yields (definition.Binds good) (definition.bindPositional skip bound values) := by
  rw [bindPositional, if_neg (Nat.not_lt.mpr enough)]
  dsimp only
  split
  · trivial
  · refine (yields_mapM fun entry member => ?_).bind fun arguments harguments =>
      binds_append hbound enough (by simpa using harguments)
    obtain ⟨parameter, index⟩ := entry
    refine yields_argumentOr _ (fun node given => h _ _ given) (fallbacks parameter ?_)
    exact List.mem_of_mem_drop (List.fst_mem_of_mem_zipIdx member)

/-- A node that has to be a call on a receiver is one, with a good receiver and a good operand. -/
lemma yields_receiverCall (inherited : Node.Inherited good) {node : Node} (h : good node) :
    Yields (fun call => good call.1 ∧ ∀ operand ∈ call.2, good operand)
      (definition.receiverCall node) := by
  unfold receiverCall
  split
  · rename_i receiver hvalues
    exact ⟨inherited.value h hvalues 0 rfl, nofun⟩
  · rename_i receiver operand hvalues
    refine ⟨inherited.value h hvalues 0 rfl, fun node same => ?_⟩
    cases same
    exact inherited.value h hvalues 1 rfl
  · trivial

/-- **Every parameter is bound**, to a part of the node or to a fallback. -/
theorem yields_bind (inherited : Node.Inherited good) (fallbacks : definition.Fallbacks good)
    (arity : definition.signature.kind.Takes definition.parameters.length) {node : Node}
    (h : good node) : Yields (definition.Binds good) (definition.bind node) := by
  have none : ([] : List Node).length = 0 ∧ ∀ node ∈ ([] : List Node), good node := ⟨rfl, nofun⟩
  have one : ∀ receiver, good receiver →
      [receiver].length = 1 ∧ ∀ node ∈ [receiver], good node := by
    intro receiver hreceiver
    refine ⟨rfl, fun node member => ?_⟩
    rwa [List.mem_singleton.mp member]
  have keyed : ∀ node, good node → Yields (fun properties => ∀ key value,
      Node.lookup properties key = some value → good value) (definition.objectProperties node) := by
    intro node h
    unfold objectProperties
    split
    · rename_i holds
      exact fun key value found => inherited.property h holds key found
    · trivial
  have positional : ∀ node, good node → Yields (fun values => ∀ (index : Nat) value,
      values[index]? = some value → good value) (definition.listValues node) := by
    intro node h
    unfold listValues
    split
    · rename_i holds
      exact fun index value found => inherited.value h holds index found
    · trivial
  have call : Yields (fun call => good call.1 ∧ ∀ operand ∈ call.2, good operand)
      (definition.receiverCall node) := yields_receiverCall inherited h
  have noProperties : ∀ key value, Node.lookup [] key = some value → good value := nofun
  have noValues : ∀ (index : Nat) value, ([] : List Node)[index]? = some value → good value := by
    intro index value found
    simp at found
  unfold bind
  split <;> rename_i hkind <;> rw [hkind] at arity
  · exact ⟨arity.symm, none.2⟩
  · exact (keyed node h).bind fun properties inside =>
      yields_bindKeyed fallbacks none (Nat.zero_le _) inside
  · exact (positional node h).bind fun values inside =>
      yields_bindPositional fallbacks none (Nat.zero_le _) inside
  · exact (positional node h).bind fun values inside =>
      yields_bindPositional fallbacks none (Nat.zero_le _) inside
  · refine call.bind fun parts hparts => ?_
    obtain ⟨receiver, operand⟩ := parts
    cases operand with
    | none => exact ⟨arity.symm, (one receiver hparts.1).2⟩
    | some operand => trivial
  · refine call.bind fun parts hparts => ?_
    obtain ⟨receiver, operand⟩ := parts
    cases operand with
    | none => exact yields_bindKeyed fallbacks (one receiver hparts.1) arity noProperties
    | some operand =>
      exact (keyed operand (hparts.2 operand rfl)).bind fun properties inside =>
        yields_bindKeyed fallbacks (one receiver hparts.1) arity inside
  · refine call.bind fun parts hparts => ?_
    obtain ⟨receiver, operand⟩ := parts
    cases operand with
    | none => exact yields_bindPositional fallbacks (one receiver hparts.1) arity noValues
    | some operand =>
      exact (positional operand (hparts.2 operand rfl)).bind fun values inside =>
        yields_bindPositional fallbacks (one receiver hparts.1) arity inside
  · refine call.bind fun parts hparts => ?_
    obtain ⟨receiver, operand⟩ := parts
    cases operand with
    | none => exact yields_bindPositional fallbacks (one receiver hparts.1) arity noValues
    | some operand =>
      exact (positional operand (hparts.2 operand rfl)).bind fun values inside =>
        yields_bindPositional fallbacks (one receiver hparts.1) arity inside

/-- Putting an argument where a replacement says. -/
lemma yields_replace (inherited : Node.Inherited good) {arguments : List Node}
    (harguments : ∀ node ∈ arguments, good node) {tree : Node} (h : good tree)
    {replacement : Replacement} (target : replacement.parameter < arguments.length) :
    Yields good (definition.replace arguments tree replacement) := by
  obtain ⟨value, hvalue, hgood⟩ : ∃ value, arguments[replacement.parameter]? = some value ∧
      good value := ⟨_, List.getElem?_eq_getElem target, harguments _ (List.getElem_mem target)⟩
  unfold replace
  cases tree.get? replacement.path with
  | none => trivial
  | some node =>
    simp only [hvalue]
    cases replacement.target with
    | value =>
      show good ((tree.set? replacement.path value).getD tree)
      cases hset : tree.set? replacement.path value with
      | none => exact h
      | some changed => exact inherited.set? h hgood hset
    | name lead =>
      dsimp only
      cases value.value? with
      | none => trivial
      | some text =>
        show good ((tree.modify? (fun node => some (node.rename (lead ++ text)))
          replacement.path).getD tree)
        cases hmodify : tree.modify? (fun node => some (node.rename (lead ++ text)))
            replacement.path with
        | none => exact h
        | some changed =>
          refine inherited.modify? h hmodify fun old new hold hnew => ?_
          cases hnew
          exact inherited.rename _ hold

/-- **What a macro makes of a node is good**, if the node, the template and the fallbacks are. -/
theorem yields_apply (inherited : Node.Inherited good) (fallbacks : definition.Fallbacks good)
    (sound : definition.Sound) (template : good definition.template) {node : Node} (h : good node) :
    Yields good (definition.apply node).result := by
  have bound := yields_bind inherited fallbacks sound.arity h
  unfold apply
  cases hbind : definition.bind node with
  | error failure =>
    rw [hbind] at bound
    match failure, bound with
    | .mistake _, _ => trivial
  | ok binding =>
    rw [hbind] at bound
    obtain ⟨length, harguments⟩ := bound
    dsimp only
    cases definition.mismatch? binding.arguments with
    | some cause => trivial
    | none =>
      refine yields_foldlM template fun tree htree replacement member => ?_
      exact yields_replace inherited harguments htree (length ▸ sound.targets replacement member)

end MacroDefinition

/-- The macro that an invocation means is one of those in force. -/
lemma MacroRegistry.mem_of_resolve {registry : MacroRegistry} {name : String} {kind : MacroKind}
    {argument : Node} {found : Shared MacroDefinition}
    (h : registry.resolve name kind argument = .ok (some found)) : found ∈ registry.definitions := by
  simp only [resolve] at h
  split at h
  · cases h
  split at h
  · cases h
  · rename_i best _
    have winner : found ∈ (((admitting (registry.group ⟨name, kind⟩) argument).filter
        fun entry => entry.1 = best).map Prod.snd) := by
      split at h
      · rename_i hwinner
        rw [hwinner]
        cases h
        exact List.mem_singleton_self _
      · cases h
    obtain ⟨⟨score, entry⟩, member, rfl⟩ := List.mem_map.mp winner
    obtain ⟨entry, inGroup, same⟩ := List.mem_filterMap.mp (List.mem_of_mem_filter member)
    obtain ⟨_, -, same⟩ := Option.map_eq_some_iff.mp same
    cases same
    exact List.mem_of_mem_filter inGroup

/-! ## Invoking -/

namespace Parser

/-- **What an expansion changes**: numbers are given out, and reports made. -/
structure Later (s t : ParserState) : Prop where
  visible : t.visible = s.visible
  scope : t.scope = s.scope
  lastId : s.lastId ≤ t.lastId
  reports : s.reports.toList <+: t.reports.toList

variable {good : ParserState → Node → Prop} {s t u : ParserState}

lemma Later.refl (s : ParserState) : Later s s :=
  ⟨rfl, rfl, Nat.le_refl _, List.prefix_refl _⟩

lemma Later.trans (first : Later s t) (second : Later t u) : Later s u :=
  ⟨second.visible.trans first.visible, second.scope.trans first.scope,
    Nat.le_trans first.lastId second.lastId, first.reports.trans second.reports⟩

/-- **What the result of an invocation inherits** from the node, the template and the fallbacks. -/
structure Inherits (good : ParserState → Node → Prop) : Prop where
  inherited : ∀ s, Node.Inherited (good s)
  later : ∀ {s t node}, good s node → Later s t → good t node
  refusal : ∀ {s t node} offset, good s node → Later s t → t.lastId = s.lastId + 1 →
    good t (.primitive placeholder ⟨t.lastId, ⟨offset, offset⟩⟩)

/-- Every macro in force is sound, and its template and its fallbacks are good. -/
def Armed (good : ParserState → Node → Prop) (s : ParserState) : Prop :=
  ∀ entry ∈ s.visible.macros.definitions, entry.value.Sound ∧ good s entry.value.template ∧
    entry.value.Fallbacks (good s)

lemma Armed.later (inherits : Inherits good) (armed : Armed good s) (later : Later s t) :
    Armed good t := by
  intro entry member
  rw [later.visible] at member
  obtain ⟨sound, template, fallbacks⟩ := armed entry member
  exact ⟨sound, inherits.later template later, fun parameter member node fallback =>
    inherits.later (fallbacks parameter member node fallback) later⟩

/-- An expansion comes to an end with a good node. -/
def Expands (good : ParserState → Node → Prop) (step : Parser Node) (s : ParserState) : Prop :=
  ∃ result t, step s = .ok result t ∧ Later s t ∧ t.depth = s.depth ∧ good t result

lemma expands_refuse (inherits : Inherits good) (offset : Nat) (report : Report) {node : Node}
    (h : good s node) : Expands good (refuse offset report) s := by
  have step : refuse offset report s = placeholderAt offset (if s.recovering then s else
      { s with reports := s.reports.push (report.atOffset offset) }) := bind_ok (note_eq _ s)
  by_cases recovering : s.recovering
  · rw [if_pos recovering] at step
    have later : Later s { s with lastId := s.lastId + 1 } :=
      ⟨rfl, rfl, Nat.le_succ _, List.prefix_refl _⟩
    exact ⟨_, _, step, later, rfl, inherits.refusal offset h later rfl⟩
  · rw [if_neg recovering] at step
    have later : Later s { s with
        lastId := s.lastId + 1, reports := s.reports.push (report.atOffset offset) } :=
      ⟨rfl, rfl, Nat.le_succ _, by simp⟩
    exact ⟨_, _, step, later, rfl, inherits.refusal offset h later rfl⟩

/-- Reports first, then an expansion. -/
lemma expands_behind_notes {warnings : List Report} {offset : Nat} {step : Parser Node}
    (h : ∀ t, Later s t → t.depth = s.depth → Expands good step t) :
    Expands good (do
      warnings.forM fun warning => note (warning.atOffset offset)
      step) s := by
  induction warnings generalizing s with
  | nil => exact h s (.refl s) rfl
  | cons warning rest ih =>
    have noted : ∃ t, note (warning.atOffset offset) s = .ok () t ∧ Later s t ∧
        t.depth = s.depth := by
      refine ⟨_, note_eq _ s, ?_⟩
      split
      · exact ⟨.refl s, rfl⟩
      · exact ⟨⟨rfl, rfl, Nat.le_refl _, by simp⟩, rfl⟩
    obtain ⟨t, hnote, later, depth⟩ := noted
    obtain ⟨result, u, hstep, laterU, depthU, hgood⟩ :=
      ih (s := t) fun v laterV depthV => h v (later.trans laterV) (depthV.trans depth)
    refine ⟨result, u, ?_, later.trans laterU, depthU.trans depth, hgood⟩
    have first : ((warning :: rest).forM fun warning => note (warning.atOffset offset))
        = (note (warning.atOffset offset) >>= fun _ =>
            rest.forM fun warning => note (warning.atOffset offset)) := rfl
    rw [← hstep, first, bind_assoc, bind_ok hnote]

/-- The invocations that were waiting are expanded one after the other. -/
lemma expands_expandDeferred (inherits : Inherits good)
    {expandOne : Node → MacroKind → Parser Node} {depth : Nat}
    (h : ∀ {s node kind}, Armed good s → s.depth = depth → good s node →
      Expands good (expandOne node kind) s)
    (span : Span) {tree : Node} (waiting : List DeferredInvocation) (armed : Armed good s)
    (hdepth : s.depth = depth) (htree : good s tree) :
    Expands good (expandDeferred expandOne span tree waiting) s := by
  induction waiting generalizing s tree with
  | nil => exact ⟨tree, s, rfl, .refl s, rfl, htree⟩
  | cons invocation rest ih =>
    rw [expandDeferred, List.foldlM_cons]
    cases found : tree.get? invocation.path with
    | none =>
      rw [pure_bind]
      exact ih armed hdepth htree
    | some target =>
      have hgood := (inherits.inherited s).withSpan span ((inherits.inherited s).get? htree found)
      obtain ⟨expanded, t, hexpand, later, hdepthT, hexpanded⟩ := h armed hdepth hgood
      have htreeT := inherits.later htree later
      have htree' : good t ((tree.set? invocation.path expanded).getD tree) := by
        cases hset : tree.set? invocation.path expanded with
        | none => exact htreeT
        | some changed => exact (inherits.inherited t).set? htreeT hexpanded hset
      obtain ⟨result, u, hrest, laterU, hdepthU, hresult⟩ :=
        ih (armed.later inherits later) (hdepthT.trans hdepth) htree'
      refine ⟨result, u, ?_, later.trans laterU, hdepthU.trans hdepthT, hresult⟩
      rw [← hrest, bind_assoc, bind_ok hexpand, pure_bind]
      rfl

/-- Using a macro, with one level less than there are left. -/
lemma expands_useMacro (inherits : Inherits good) {expandOne : Node → MacroKind → Parser Node}
    {definition : MacroDefinition} {node : Node} (armed : Armed good s)
    (h : s.depth < maxNesting → ∀ {t node kind}, Armed good t → t.depth = s.depth + 1 →
      good t node → Expands good (expandOne node kind) t)
    (sound : definition.Sound) (template : good s definition.template)
    (fallbacks : definition.Fallbacks (good s)) (hnode : good s node) :
    Expands good (useMacro expandOne definition node) s := by
  by_cases deep : maxNesting ≤ s.depth
  · have step : useMacro expandOne definition node s
        = refuse node.span.start (Report.of (.nestingLimit definition.signature)) s := by
      rw [useMacro, bind_get, if_pos deep]
    obtain ⟨result, t, refused, rest⟩ := expands_refuse inherits node.span.start
      (Report.of (.nestingLimit definition.signature)) hnode
    exact ⟨result, t, step.trans refused, rest⟩
  have applied := MacroDefinition.yields_apply (inherits.inherited s) fallbacks sound template hnode
  rw [Expands, useMacro, bind_get, if_neg deep]
  cases hresult : (definition.apply node).result with
  | error failure =>
    cases failure with
    | fault fault =>
      rw [hresult] at applied
      exact applied.elim
    | mistake report =>
      exact expands_behind_notes fun t later _ =>
        expands_refuse inherits _ _ (inherits.later hnode later)
  | ok made =>
    rw [hresult] at applied
    refine expands_behind_notes fun t later depth => ?_
    have hmade : good t made := inherits.later applied later
    split
    · exact ⟨made, t, rfl, .refl t, rfl, hmade⟩
    have deeper : Later t { t with depth := t.depth + 1 } :=
      ⟨rfl, rfl, Nat.le_refl _, List.prefix_refl _⟩
    obtain ⟨result, u, hexpand, laterU, depthU, hgood⟩ :=
      expands_expandDeferred inherits (h (Nat.lt_of_not_le deep)) node.span definition.deferred
        ((armed.later inherits later).later inherits deeper)
        (congrArg (· + 1) depth) (inherits.later hmade deeper)
    have back : Later u { u with depth := u.depth - 1 } :=
      ⟨rfl, rfl, Nat.le_refl _, List.prefix_refl _⟩
    refine ⟨result, { u with depth := u.depth - 1 }, ?_, (deeper.trans laterU).trans back, ?_,
      inherits.later hgood back⟩
    · have step : nested (expandDeferred expandOne node.span made definition.deferred) t
          = (expandDeferred expandOne node.span made definition.deferred >>= fun result => do
              modify fun s => { s with depth := s.depth - 1 }
              return result) { t with depth := t.depth + 1 } := rfl
      rw [step, bind_ok hexpand]
      rfl
    · show u.depth - 1 = t.depth
      rw [depthU]
      rfl

/-- **An invocation comes to an end**, with as many levels of expansion as are left. -/
theorem expands_invokeWithin (inherits : Inherits good) (levels : Nat) {node : Node}
    {kind : MacroKind} (armed : Armed good s) (left : levels + s.depth = maxNesting + 1)
    (depth : s.depth ≤ maxNesting) (h : good s node) :
    Expands good (invokeWithin levels node kind) s := by
  induction levels generalizing s node kind with
  | zero => omega
  | succ levels ih =>
    rw [Expands]
    cases hresolve : s.visible.macros.resolve (invokedName node) kind node with
    | error report =>
      rw [invokeWithin_undecided hresolve]
      exact expands_refuse inherits _ _ h
    | ok answer =>
      cases answer with
      | none => exact ⟨node, s, invokeWithin_unanswered hresolve, .refl s, rfl, h⟩
      | some found =>
        rw [invokeWithin_answered hresolve]
        obtain ⟨sound, template, fallbacks⟩ :=
          armed found (MacroRegistry.mem_of_resolve hresolve)
        exact expands_useMacro inherits armed
          (fun shallow {t node kind} armed hdepth => ih armed (by omega) (by omega))
          sound template fallbacks h

/-- **An invocation is never broken off, and its result inherits.** -/
theorem expands_invoke (inherits : Inherits good) {node : Node} {kind : MacroKind}
    (armed : Armed good s) (depth : s.depth ≤ maxNesting) (h : good s node) :
    Expands good (invoke node kind) s :=
  expands_invokeWithin inherits _ armed (by omega) depth h

end Parser

end TreeLang
