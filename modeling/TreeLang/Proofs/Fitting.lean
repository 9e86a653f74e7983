import Mathlib.Data.List.Basic
import TreeLang.Proofs.Invoking

/-!
# Fit and binding

Whether a node fits as an invocation is computed twice: once as a number, to choose among several
macros, and once by giving each parameter its argument.  Both read the same thing off the node, a
receiver for some kinds and behind it keys or positions, and for parameters that were checked they
agree about it.  Of keys this is so because names are distinct; of positions it is so because the
optional parameters come last, so that a count tells which parameters get a value.

* `MacroDefinition.Admitted` — the parameters are those of a kind, and were checked.
* `Offer`, `offer?` — what a node gives to the parameters.
* `keyed_agrees`, `positional_agrees` — the two ways of giving, each against its score.
* **`score_agrees_bind`** — the score of a node, and what binding to it comes to.
-/

namespace TreeLang

/-! ## Checked parameters -/

/-- A list without a name that occurs again has distinct names. -/
lemma nodup_of_repeatedName? {seen : List String} {parameters : List Parameter}
    (none : repeatedName? seen parameters = none) :
    (parameters.map (·.name)).Nodup ∧ ∀ parameter ∈ parameters, parameter.name ∉ seen := by
  induction parameters generalizing seen with
  | nil => simp
  | cons first rest ih =>
    rw [repeatedName?] at none
    split at none
    · cases none
    · rename_i new
      obtain ⟨distinct, unseen⟩ := ih none
      simp only [List.mem_cons, not_or] at unseen
      refine ⟨?_, ?_⟩
      · refine List.nodup_cons.mpr ⟨fun again => ?_, distinct⟩
        obtain ⟨other, member, same⟩ := List.mem_map.mp again
        exact (unseen other member).1 same
      · rintro parameter (_ | ⟨_, member⟩)
        · simpa using new
        · exact (unseen parameter member).2

/-- A list without a required parameter right behind an optional one has none further behind. -/
lemma trailing_of_misplacedRequired? {parameters : List Parameter}
    (none : misplacedRequired? parameters = none) :
    parameters.Pairwise fun first second => first.isOptional → second.isOptional := by
  induction parameters with
  | nil => exact .nil
  | cons first rest ih =>
    cases rest with
    | nil => exact List.pairwise_singleton _ _
    | cons second others =>
      rw [misplacedRequired?] at none
      split at none
      · cases none
      · rename_i placed
        have ordered := ih none
        have next : first.isOptional → second.isOptional := by
          simpa using placed
        refine List.pairwise_cons.mpr ⟨?_, ordered⟩
        rintro parameter (_ | ⟨_, member⟩) optional
        · exact next optional
        · exact (List.pairwise_cons.mp ordered).1 parameter member (next optional)

/-- In a list whose optional parameters come last, a required one has only required ones before it. -/
lemma lt_countP_required {parameters : List Parameter}
    (trailing : parameters.Pairwise fun first second => first.isOptional → second.isOptional)
    {index : Nat} {parameter : Parameter} (known : parameters[index]? = some parameter)
    (required : parameter.isOptional = false) :
    index < parameters.countP fun parameter => !parameter.isOptional := by
  induction parameters generalizing index with
  | nil => cases known
  | cons first rest ih =>
    obtain ⟨head, tail⟩ := List.pairwise_cons.mp trailing
    cases index with
    | zero =>
      cases known
      simp [required]
    | succ index =>
      have behind := ih tail known
      have needed : first.isOptional = false := by
        by_contra optional
        have last := head parameter (List.mem_of_getElem? known) (by simpa using optional)
        rw [required] at last
        cases last
      simpa [needed] using behind

namespace MacroDefinition

variable {definition : MacroDefinition} {argument : Node}

/-- **The parameters are those that a macro of the kind has**: none for a constant, the receiver
alone for an access, the receiver first for what is called on one; and they were checked. -/
structure Admitted (definition : MacroDefinition) : Prop where
  arity : definition.signature.kind.Takes definition.parameters.length
  checked : checkParameters definition.signature.kind definition.parameters
    = .ok definition.parameters

/-- Names are distinct. -/
lemma Admitted.distinct (admitted : definition.Admitted) :
    (definition.parameters.map (·.name)).Nodup := by
  have checked := admitted.checked
  rw [checkParameters] at checked
  split at checked
  · cases checked
  · rename_i none
    exact (nodup_of_repeatedName? none).1

/-- Where arguments are chosen by position the optional parameters come last. -/
lemma Admitted.trailing (admitted : definition.Admitted)
    (positional : definition.signature.kind.isKeyed = false) :
    definition.parameters.Pairwise fun first second => first.isOptional → second.isOptional := by
  have checked := admitted.checked
  rw [checkParameters, positional] at checked
  split at checked
  · cases checked
  · rw [if_neg (by simp)] at checked
    split at checked
    · cases checked
    · rename_i none
      exact trailing_of_misplacedRequired? none

/-- A receiver has its parameter. -/
lemma Admitted.implicit_le (admitted : definition.Admitted) :
    definition.signature.kind.implicit ≤ definition.parameters.length := by
  have arity := admitted.arity
  cases kind : definition.signature.kind <;> rw [kind] at arity <;>
    simp_all [MacroKind.Takes, MacroKind.implicit, MacroKind.isFunction]

end MacroDefinition

/-! ## What a node gives -/

/-- What an invocation gives to the parameters behind the receiver. -/
inductive Offer where
  | keys (properties : List (String × Node))
  | positions (values : List Node)

/-- How many keys or positions are supplied. -/
def Offer.count : Offer → Nat
  | keys properties => properties.length
  | positions values => values.length

/-- What is given for a parameter, which has an index among those behind the receiver. -/
def Offer.given (offer : Offer) (parameter : Parameter) (index : Nat) : Option Node :=
  match offer with
  | keys properties => Node.lookup properties parameter.name
  | positions values => values[index]?

/-- **The receiver that a kind asks for, and what a node gives behind it**; nothing if the node does
not have the shape of an invocation of that kind. -/
def offer? (kind : MacroKind) (argument : Node) : Option (List Node × Offer) :=
  match kind with
  | .constant => some ([], .positions [])
  | .object => argument.properties?.map fun properties => ([], .keys properties)
  | .list | .operation => argument.values?.map fun values => ([], .positions values)
  | .access =>
    match argument.values? with
    | some [receiver] => some ([receiver], .positions [])
    | _ => none
  | .objectFunction =>
    match argument.values? with
    | some [receiver] => some ([receiver], .keys [])
    | some [receiver, operand] =>
      operand.properties?.map fun properties => ([receiver], .keys properties)
    | _ => none
  | .listFunction | .operationFunction =>
    match argument.values? with
    | some [receiver] => some ([receiver], .positions [])
    | some [receiver, operand] => operand.values?.map fun values => ([receiver], .positions values)
    | _ => none

namespace MacroDefinition

variable {definition : MacroDefinition} {argument : Node} {skip : Nat}

/-! ## Arguments one by one -/

/-- What is given counts before the fallback. -/
lemma argumentOr_eq (given : Option Node) (parameter : Parameter) (missing : Cause) :
    argumentOr given parameter missing =
      match given.or parameter.fallback with
      | some value => .ok value
      | none => .error (.of missing) := by
  cases given <;> cases fallback : parameter.fallback <;> simp [argumentOr, fallback]

/-- **Arguments are what is given or else the fallbacks**, and only a parameter that has neither
fails. -/
lemma mapM_argumentOr_cases {α : Type} (items : List α) (given : α → Option Node)
    (parameter : α → Parameter) (missing : α → Cause) :
    (∃ arguments, (items.mapM fun item =>
          argumentOr (given item) (parameter item) (missing item)) = .ok arguments ∧
        items.map (fun item => (given item).or (parameter item).fallback) = arguments.map some) ∨
      ∃ item ∈ items, given item = none ∧ (parameter item).isOptional = false ∧
        (items.mapM fun item => argumentOr (given item) (parameter item) (missing item))
          = .error (.of (missing item)) := by
  induction items with
  | nil => exact .inl ⟨[], rfl, rfl⟩
  | cons item rest ih =>
    rw [List.mapM_cons, argumentOr_eq]
    cases value : (given item).or (parameter item).fallback with
    | none =>
      obtain ⟨absent, required⟩ := Option.or_eq_none_iff.mp value
      exact .inr ⟨item, List.mem_cons_self, absent, by simp [Parameter.isOptional, required], rfl⟩
    | some value' =>
      obtain ⟨arguments, rest', filled⟩ | ⟨missed, member, absent, required, rest'⟩ := ih
      · exact .inl ⟨value' :: arguments, by rw [rest']; rfl, by simp [value, filled]⟩
      · exact .inr ⟨missed, List.mem_cons_of_mem _ member, absent, required, by rw [rest']; rfl⟩

/-! ## Binding to an offer -/

/-- The score of an offer. -/
def scoreOf (definition : MacroDefinition) (skip : Nat) : Offer → Option Nat
  | .keys properties => definition.keyedScore skip properties
  | .positions values => definition.positionalScore skip values.length

/-- Binding to an offer. -/
def bindTo (definition : MacroDefinition) (skip : Nat) (bound : List Node) :
    Offer → Except Failure Binding
  | .keys properties => definition.bindKeyed skip bound properties
  | .positions values => definition.bindPositional skip bound values

/-- **The arguments that an offer makes**: for each parameter from an index on what is given for it,
or else its fallback. -/
def Fills (definition : MacroDefinition) (skip : Nat) (offer : Offer) (arguments : List Node) :
    Prop :=
  (definition.parameters.drop skip).zipIdx.map
    (fun (parameter, index) => (offer.given parameter index).or parameter.fallback)
      = arguments.map some

/-- There is one argument for each of those parameters. -/
lemma Fills.length {offer : Offer} {arguments : List Node}
    (fills : definition.Fills skip offer arguments) :
    arguments.length = definition.parameters.length - skip := by
  have lengths := congrArg List.length fills
  simpa using lengths.symm

/-- **A score and the outcome of binding that go together.** -/
def Agrees (definition : MacroDefinition) (skip : Nat) (bound : List Node) (offer : Offer) :
    Option Nat → Except Failure Binding → Prop
  | some extra, .ok binding => offer.count = definition.requiredAfter skip + extra ∧
      ∃ arguments, binding.arguments = bound ++ arguments ∧ definition.Fills skip offer arguments
  | none, .error failure => ∃ cause, failure = .of cause ∧ ∀ name, cause ≠ .unboundParameter name
  | _, _ => False

/-- Required names that are keys are at most as many as the properties. -/
lemma requiredAfter_le (distinct : (definition.parameters.map (·.name)).Nodup)
    {properties : List (String × Node)}
    (complete : ∀ parameter ∈ definition.parameters.drop skip,
      parameter.isOptional ∨ Node.hasKey properties parameter.name) :
    definition.requiredAfter skip ≤ properties.length := by
  let required := (definition.parameters.drop skip).filter fun parameter => !parameter.isOptional
  have names : (required.map (·.name)).Nodup :=
    distinct.sublist ((List.filter_sublist.trans (List.drop_sublist _ _)).map _)
  have keys : required.map (·.name) ⊆ properties.map Prod.fst := by
    intro name member
    obtain ⟨parameter, listed, rfl⟩ := List.mem_map.mp member
    obtain ⟨listed, needed⟩ := List.mem_filter.mp listed
    obtain optional | found := complete parameter listed
    · simp [optional] at needed
    · rw [Node.hasKey, Node.lookup, Option.isSome_map, List.find?_isSome] at found
      obtain ⟨property, member, same⟩ := found
      exact List.mem_map.mpr ⟨property, member, by simpa using same⟩
  have bound := (List.subperm_of_subset names keys).length_le
  rwa [List.length_map, List.length_map, ← List.countP_eq_length_filter] at bound

/-- Where arguments are filled in, each parameter has something given or a fallback. -/
lemma isSome_of_filled {α : Type} {items : List α} {value : α → Option Node} {arguments : List Node}
    (filled : items.map value = arguments.map some) {item : α} (member : item ∈ items) :
    (value item).isSome := by
  have listed : value item ∈ arguments.map some := filled ▸ List.mem_map_of_mem member
  obtain ⟨argument, -, same⟩ := List.mem_map.mp listed
  rw [← same]
  rfl

/-- **Keys.** -/
lemma keyed_agrees (distinct : (definition.parameters.map (·.name)).Nodup) (bound : List Node)
    (properties : List (String × Node)) :
    definition.Agrees skip bound (.keys properties) (definition.keyedScore skip properties)
      (definition.bindKeyed skip bound properties) := by
  rw [keyedScore, bindKeyed]
  obtain ⟨arguments, mapped, filled⟩ | ⟨parameter, member, absent, required, mapped⟩ :=
    mapM_argumentOr_cases (definition.parameters.drop skip)
      (fun parameter => Node.lookup properties parameter.name) id
      (fun parameter => .missingKey parameter.name definition.signature)
  · have complete : ∀ parameter ∈ definition.parameters.drop skip,
        parameter.isOptional ∨ Node.hasKey properties parameter.name := by
      intro parameter member
      have known := isSome_of_filled filled member
      rw [Option.isSome_or, Bool.or_eq_true] at known
      exact known.symm
    rw [if_pos (List.all_eq_true.mpr fun parameter member =>
      Bool.or_eq_true _ _ ▸ complete parameter member)]
    dsimp only [id] at mapped
    rw [mapped]
    refine ⟨?_, arguments, rfl, ?_⟩
    · have enough := requiredAfter_le distinct complete
      show properties.length = _
      omega
    · rw [Fills, ← filled]
      conv_rhs => rw [← List.zipIdx_map_fst 0 (definition.parameters.drop skip), List.map_map]
      rfl
  · have incomplete : ¬ (definition.parameters.drop skip).all fun parameter =>
        parameter.isOptional || Node.hasKey properties parameter.name := by
      intro complete
      have found := List.all_eq_true.mp complete parameter member
      simp_all [Node.hasKey]
    rw [if_neg incomplete]
    dsimp only [id] at mapped
    rw [mapped]
    exact ⟨_, rfl, by rintro _ ⟨⟩⟩

/-- **Positions.** -/
lemma positional_agrees
    (trailing : definition.parameters.Pairwise fun first second =>
      first.isOptional → second.isOptional)
    (receiver : skip ≤ definition.parameters.length) (bound values : List Node) :
    definition.Agrees skip bound (.positions values)
      (definition.positionalScore skip values.length)
      (definition.bindPositional skip bound values) := by
  rw [positionalScore, bindPositional, if_neg (Nat.not_lt.mpr receiver)]
  by_cases few : values.length < definition.requiredAfter skip
  · rw [if_neg (Nat.not_le.mpr few)]
    dsimp only
    rw [if_pos few]
    exact ⟨_, rfl, by rintro _ ⟨⟩⟩
  · rw [if_pos (Nat.not_lt.mp few)]
    dsimp only
    rw [if_neg few]
    obtain ⟨arguments, mapped, filled⟩ | ⟨⟨parameter, index⟩, member, absent, required, -⟩ :=
      mapM_argumentOr_cases (definition.parameters.drop skip).zipIdx
        (fun item => values[item.2]?) Prod.fst (fun item => .unboundParameter item.1.name)
    · rw [mapped]
      refine ⟨?_, arguments, rfl, filled⟩
      show values.length = _
      omega
    · -- A required parameter has only required ones before it, and there is a value for each of them.
      have known := List.mk_mem_zipIdx_iff_getElem?.mp member
      have before := lt_countP_required (trailing.sublist (List.drop_sublist _ _)) known required
      have behind := List.getElem?_eq_none_iff.mp absent
      rw [requiredAfter] at few
      omega

/-! ## Binding to a node -/

/-- **What a node comes to**: its score and the outcome of binding go together for what it offers,
and a node that offers nothing has no score and is complained about. -/
def Fit (definition : MacroDefinition) (argument : Node) : Prop :=
  match offer? definition.signature.kind argument with
  | some (receiver, offer) => definition.Agrees definition.signature.kind.implicit receiver offer
      (definition.score argument) (definition.bind argument)
  | none => definition.score argument = none ∧ ∃ cause,
      definition.bind argument = .error (.of cause) ∧ ∀ name, cause ≠ .unboundParameter name

/-- A node is a call on a receiver, without or with an operand, or it is none. -/
lemma receiver_cases (definition : MacroDefinition) (argument : Node) :
    (∃ receiver, argument.values? = some [receiver] ∧ callOperand? argument = some none ∧
        definition.receiverCall argument = .ok (receiver, none)) ∨
      (∃ receiver operand, argument.values? = some [receiver, operand] ∧
        callOperand? argument = some (some operand) ∧
          definition.receiverCall argument = .ok (receiver, some operand)) ∨
        (∀ receiver, argument.values? ≠ some [receiver]) ∧ callOperand? argument = none ∧
          (∀ kind, kind.isFunction → offer? kind argument = none) ∧
            definition.receiverCall argument
              = .error (definition.wrongShape "a receiver call" argument) := by
  rcases values : argument.values? with _ | _ | ⟨receiver, _ | ⟨operand, _ | ⟨_, _⟩⟩⟩
  case some.cons.nil =>
    exact .inl ⟨receiver, rfl, by simp [callOperand?, values], by simp [receiverCall, values]⟩
  case some.cons.cons.nil =>
    exact .inr (.inl ⟨receiver, operand, rfl, by simp [callOperand?, values],
      by simp [receiverCall, values]⟩)
  all_goals
    refine .inr (.inr ⟨nofun, by simp [callOperand?, values], fun kind function => ?_,
      by simp [receiverCall, values]⟩)
    cases kind <;> simp_all [MacroKind.isFunction, offer?]

/-- The access to a member takes a receiver and no operand. -/
lemma Admitted.fit_access (admitted : definition.Admitted)
    (kind : definition.signature.kind = .access) (argument : Node) : definition.Fit argument := by
  have arity := admitted.arity
  rw [kind] at arity
  have last : definition.parameters.drop 1 = [] := List.drop_eq_nil_of_le (Nat.le_of_eq arity)
  rw [Fit, score, bind, kind]
  obtain ⟨receiver, values, -, called⟩ | ⟨receiver, operand, values, -, called⟩ |
    ⟨other, -, none, called⟩ := receiver_cases definition argument
  · simp only [offer?, values, called]
    refine ⟨?_, [], rfl, ?_⟩
    · simp [requiredAfter, last, Offer.count, MacroKind.implicit, MacroKind.isFunction]
    · simp [Fills, last, MacroKind.implicit, MacroKind.isFunction]
  · simp only [offer?, values, called]
    exact ⟨rfl, _, rfl, nofun⟩
  · rw [none _ rfl, called]
    refine ⟨Option.bind_eq_none_iff.mpr fun values known => if_neg fun single => ?_, _, rfl, nofun⟩
    obtain ⟨receiver, rfl⟩ := List.length_eq_one_iff.mp single
    exact other receiver known

/-- An object macro that is called on a receiver binds the properties of the operand. -/
lemma Admitted.fit_objectFunction (admitted : definition.Admitted)
    (kind : definition.signature.kind = .objectFunction) (argument : Node) :
    definition.Fit argument := by
  rw [Fit, score, bind, kind]
  obtain ⟨receiver, values, bare, called⟩ | ⟨receiver, operand, values, behind, called⟩ |
    ⟨-, behind, none, called⟩ := receiver_cases definition argument
  · simp only [offer?, values, bare, called]
    exact keyed_agrees admitted.distinct [receiver] []
  · simp only [offer?, values, behind, called]
    cases offered : operand.properties? with
    | none =>
      refine ⟨by simp [offered], ?_⟩
      show ∃ cause, (definition.objectProperties operand >>= _) = .error (.of cause) ∧ _
      rw [objectProperties, offered]
      exact ⟨_, rfl, nofun⟩
    | some properties =>
      show definition.Agrees 1 [receiver] _ (operand.properties?.bind _)
        (definition.objectProperties operand >>= definition.bindKeyed 1 [receiver])
      rw [objectProperties, offered]
      exact keyed_agrees admitted.distinct [receiver] properties
  · rw [none _ rfl, behind, called]
    exact ⟨rfl, _, rfl, nofun⟩

/-- A list or operation macro that is called on a receiver binds the values of the operand. -/
lemma Admitted.fit_listFunction (admitted : definition.Admitted)
    (kind : definition.signature.kind = .listFunction ∨
      definition.signature.kind = .operationFunction) (argument : Node) :
    definition.Fit argument := by
  have receives := admitted.implicit_le
  have trailing := admitted.trailing
  rw [Fit, score, bind]
  rcases kind with kind | kind <;> rw [kind] at receives trailing ⊢
  all_goals
    obtain ⟨receiver, values, bare, called⟩ | ⟨receiver, operand, values, behind, called⟩ |
      ⟨-, behind, none, called⟩ := receiver_cases definition argument
    · simp only [offer?, values, bare, called]
      exact positional_agrees (trailing rfl) receives [receiver] []
    · simp only [offer?, values, behind, called]
      cases offered : operand.values? with
      | none =>
        refine ⟨by simp [offered], ?_⟩
        show ∃ cause, (definition.listValues operand >>= _) = .error (.of cause) ∧ _
        rw [listValues, offered]
        exact ⟨_, rfl, nofun⟩
      | some values =>
        show definition.Agrees 1 [receiver] _ (operand.values?.bind _)
          (definition.listValues operand >>= definition.bindPositional 1 [receiver])
        rw [listValues, offered]
        exact positional_agrees (trailing rfl) receives [receiver] values
    · rw [none _ rfl, behind, called]
      exact ⟨rfl, _, rfl, nofun⟩

/-- **The score of a node and binding to it go together**, for every kind of macro. -/
lemma Admitted.fit (admitted : definition.Admitted) (argument : Node) :
    definition.Fit argument := by
  have receives := admitted.implicit_le
  have trailing := admitted.trailing
  have arity := admitted.arity
  cases kind : definition.signature.kind
  case access => exact admitted.fit_access kind argument
  case objectFunction => exact admitted.fit_objectFunction kind argument
  case listFunction => exact admitted.fit_listFunction (.inl kind) argument
  case operationFunction => exact admitted.fit_listFunction (.inr kind) argument
  all_goals rw [Fit, score, bind, kind]; rw [kind] at receives trailing arity
  case constant =>
    have none : definition.parameters = [] := List.length_eq_zero_iff.mp arity
    exact ⟨by simp [requiredAfter, none, Offer.count], [], rfl, by simp [Fills, none]⟩
  case object =>
    cases offered : argument.properties? with
    | none =>
      simp only [offer?, offered, objectProperties]
      exact ⟨rfl, _, rfl, nofun⟩
    | some properties =>
      simp only [offer?, offered, objectProperties]
      exact keyed_agrees admitted.distinct [] properties
  case list | operation =>
    cases offered : argument.values? with
    | none =>
      simp only [offer?, offered, listValues]
      exact ⟨rfl, _, rfl, nofun⟩
    | some values =>
      simp only [offer?, offered, listValues]
      exact positional_agrees (trailing rfl) receives [] values

/-- A kind that asks for a receiver is offered one, and no other kind is. -/
lemma length_receiver {kind : MacroKind} {receiver : List Node} {offer : Offer}
    (offered : offer? kind argument = some (receiver, offer)) : receiver.length = kind.implicit := by
  cases kind <;> simp only [offer?] at offered
  case constant =>
    cases offered
    rfl
  case object | list | operation =>
    obtain ⟨_, -, same⟩ := Option.map_eq_some_iff.mp offered
    cases same
    rfl
  all_goals
    split at offered
    all_goals first
      | cases offered; rfl
      | (obtain ⟨_, -, same⟩ := Option.map_eq_some_iff.mp offered; cases same; rfl)
      | cases offered

/-- **Scores and bindings agree.**  For parameters that were checked a node has a score exactly if
binding to it succeeds.  Then each parameter has one argument, the receiver or what the node offers
for it or else its fallback, and the score is what the node offers beyond the required parameters.
When binding fails it is for the shape of the node or a required key or count that is missed: no
parameter is left without an argument behind that, and there is always a parameter for a receiver. -/
theorem score_agrees_bind (admitted : definition.Admitted) (argument : Node) :
    ((definition.score argument).isSome ↔ ∃ binding, definition.bind argument = .ok binding) ∧
    (∀ binding, definition.bind argument = .ok binding →
      binding.arguments.length = definition.parameters.length ∧
      ∃ receiver offer arguments,
        offer? definition.signature.kind argument = some (receiver, offer) ∧
        binding.arguments = receiver ++ arguments ∧
        definition.Fills definition.signature.kind.implicit offer arguments) ∧
    (∀ failure, definition.bind argument = .error failure →
      ∃ cause, failure = .of cause ∧ ∀ name, cause ≠ .unboundParameter name) ∧
    definition.signature.kind.implicit ≤ definition.parameters.length ∧
    ∀ extra, definition.score argument = some extra → ∃ receiver offer,
      offer? definition.signature.kind argument = some (receiver, offer) ∧
      offer.count = definition.requiredAfter definition.signature.kind.implicit + extra := by
  have fit := admitted.fit argument
  have receives := admitted.implicit_le
  rw [Fit] at fit
  cases offered : offer? definition.signature.kind argument with
  | none =>
    rw [offered] at fit
    obtain ⟨scored, cause, bound, other⟩ := fit
    rw [scored, bound]
    exact ⟨⟨nofun, nofun⟩, nofun, fun _ same => ⟨cause, (Except.error.inj same).symm, other⟩, receives,
      nofun⟩
  | some known =>
    obtain ⟨receiver, offer⟩ := known
    rw [offered] at fit
    cases scored : definition.score argument <;> cases bound : definition.bind argument <;>
      rw [scored, bound] at fit
    case none.error failure =>
      obtain ⟨cause, same, other⟩ := fit
      exact ⟨⟨nofun, nofun⟩, nofun, fun _ eq => ⟨cause, (Except.error.inj eq) ▸ same, other⟩, receives,
        nofun⟩
    case some.ok extra binding =>
      obtain ⟨count, arguments, eq, fills⟩ := fit
      refine ⟨⟨fun _ => ⟨binding, rfl⟩, fun _ => rfl⟩, ?_, fun _ broken => ?_, receives, ?_⟩
      · rintro _ ⟨⟩
        refine ⟨?_, receiver, offer, arguments, rfl, eq, fills⟩
        rw [eq, List.length_append, length_receiver offered, fills.length]
        omega
      · cases broken
      · rintro _ ⟨⟩
        exact ⟨receiver, offer, rfl, count⟩
    all_goals cases fit

/-- A list macro that is called on a receiver, with a required and an optional parameter behind it:
one value is enough, and a second one counts. -/
theorem score_agrees_bind_of_call :
    let definition : MacroDefinition := ⟨⟨"f", .listFunction⟩,
      [.plain "self", .plain "a", { Parameter.plain "b" with fallback := some (.plain "d") }],
      .plain "t", [], []⟩
    let argument := Node.listOf "" [.plain "r", .listOf "f" [.plain "x"] false] false
    definition.Admitted ∧ definition.score argument = some 0 ∧
      ∃ binding, definition.bind argument = .ok binding ∧ binding.arguments.length = 3 := by
  intro definition argument
  have admitted : definition.Admitted := ⟨(by decide : 1 ≤ 3), by rfl⟩
  have agrees := score_agrees_bind admitted argument
  have scored : definition.score argument = some 0 := by rfl
  obtain ⟨binding, bound⟩ := agrees.1.mp (scored ▸ rfl)
  exact ⟨admitted, scored, binding, bound, (agrees.2.1 binding bound).1⟩

end MacroDefinition

end TreeLang
