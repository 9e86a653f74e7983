import TreeLang.Proofs.Proceeding

/-!
# Statements of a text that goes on
-/

namespace TreeLang.Parser

open TreeLang.Harmony (claim enlistVisible enlistExported registerMacro_eq enlistVisibleOperator
  enlistExportedOperator registerOperator_eq resolveImport_eq takeImport dropImport)

variable {α β : Type} {s t : ParserState} {cs : List Char} {options : CompileOptions}
  {resolver : Resolver} {Q : α → ParserState → ParserState → Prop}

/-- What is given up is lost. -/
lemma Yields.refused {R : ParserState → ParserState → Prop} [Attending R]
    {Q : Unit → ParserState → ParserState → Prop} {other : Parser Unit} (offset : Nat)
    (cause : Cause) : Yields R Q (giveUp offset cause) other :=
  .told (told_giveUp offset cause) Attending.attends other

/-! ## Macros -/

/-- The opener behind a name, where the first parser may see the end of its text. -/
lemma yields_attachedOpener? (name : Token) :
    Yields (Beside cs) (fun opener s t => match opener with
      | none => Beside cs s t
      | some _ => Begun cs false s t) (attachedOpener? name) (attachedOpener? name) := by
  refine continues_peek_line .word (fun opener => ?_) fun {token token'} ends breaks => ?_
  · split
    · exact .of_value _ id
    · exact .of_value _ Begun.toBeside
  · rw [if_neg (by simp [ends, TokenKind.isOpener]), if_neg (by simp [breaks, TokenKind.isOpener])]
    exact .of_value _ id

/-- Nothing is counted where nothing is reported. -/
lemma continues_errorCount : Keeps cs errorCount errorCount := by
  refine ⟨.look, fun {s t} beside => ?_⟩
  have run {u : ParserState} (silent : u.reports = #[]) : errorCount u = .ok 0 u := by
    show EStateM.Result.ok (u.reports.countP Report.isError) u = _
    rw [silent]
    rfl
  have silent : t.reports = #[] := by rw [beside.same, ← beside.silent]
  rw [run beside.silent, run silent]
  exact .ok 0 beside

lemma continues_counted {step other : Parser α} (keeps : Keeps cs step other) :
    Keeps cs (counted step) (counted other) :=
  continues_errorCount.bind fun _ => keeps.bind fun _ => continues_errorCount.bind fun _ => .pure _

lemma continues_template {fuel more : Nat} (le : fuel ≤ more) (parameters : List Parameter) :
    Keeps cs (template options fuel parameters) (template options more parameters) := by
  have rescope (scope : Option TemplateScope) : Keeps cs
      (modify fun s : ParserState => { s with scope := scope })
      (modify fun s : ParserState => { s with scope := scope }) :=
    continues_modifyGet (fun _ _ => rfl) (.modifyGet fun _ loud => loud) (fun _ => rfl)
      (fun _ => rfl) fun _ => rfl
  have value : Keeps cs (parseValue options fuel) (parseValue options more) :=
    (continues_within options le).1 .value rfl
  have close (outer : Option TemplateScope) (node : Node) : Keeps cs
      (do
        let scope := (← get).scope
        modify fun s => { s with scope := outer }
        return (node, scope))
      (do
        let scope := (← get).scope
        modify fun s => { s with scope := outer }
        return (node, scope)) := by
    refine .get (fun s => @StaysLoud.bind _ _ _ _ (rescope outer).stays fun _ => .pure _)
      fun {s t} beside => ?_
    have same : t.scope = s.scope := by rw [beside.same]
    rw [same]
    exact ((rescope outer).bind fun _ => .pure _).goes beside
  have whole (outer : Option TemplateScope) : Keeps cs
      (do
        modify fun s => { s with scope := some (.start (parameters.map (·.name))) }
        let node ← parseValue options fuel
        let scope := (← get).scope
        modify fun s => { s with scope := outer }
        return (node, scope))
      (do
        modify fun s => { s with scope := some (.start (parameters.map (·.name))) }
        let node ← parseValue options more
        let scope := (← get).scope
        modify fun s => { s with scope := outer }
        return (node, scope)) :=
    (rescope _).bind fun _ => value.bind (close outer)
  refine .get (fun s => (whole s.scope).stays) fun {s t} beside => ?_
  have same : t.scope = s.scope := by rw [beside.same]
  rw [same]
  exact (whole s.scope).goes beside

/-- A report on its own. -/
lemma continues_note (report : Report) : Keeps cs (note report) (note report) :=
  continues_nodewise (.note report)

/-- **Macros are registered**, or refused with a report. -/
lemma continues_registerMacro (definition : MacroDefinition) (offset : Nat) :
    Keeps cs (registerMacro definition offset) (registerMacro definition offset) := by
  have claim : Keeps cs (claim definition) (claim definition) :=
    continues_modifyGet (fun _ _ => rfl) (.modifyGet fun _ loud => loud) (fun _ => rfl)
      (fun _ => rfl) fun _ => rfl
  have visible (macro_ : Shared MacroDefinition) : Keeps cs (enlistVisible macro_)
      (enlistVisible macro_) :=
    continues_modifyGet (fun _ _ => rfl) (.modifyGet fun _ loud => loud) (fun _ => rfl)
      (fun _ => rfl) fun _ => rfl
  have exported (macro_ : Shared MacroDefinition) : Keeps cs (enlistExported macro_)
      (enlistExported macro_) :=
    continues_modifyGet (fun _ _ => rfl) (.modifyGet fun _ loud => loud) (fun _ => rfl)
      (fun _ => rfl) fun _ => rfl
  rw [registerMacro_eq]
  refine claim.bind fun macro_ => (visible macro_).bind fun conflict => ?_
  cases conflict with
  | some report => exact continues_note _
  | none =>
    refine (exported macro_).bind fun conflict => ?_
    cases conflict with
    | some report => exact continues_note _
    | none => exact .pure ()

lemma continues_macroTemplate {fuel more : Nat} (le : fuel ≤ more) (name : Token)
    (signature : Signature) (parameters : List Parameter)
    (checked : Except Report (List Parameter)) :
    Keeps cs (macroTemplate options fuel name signature parameters checked)
      (macroTemplate options more name signature parameters checked) := by
  rw [macroTemplate_eq, macroTemplate_eq]
  refine (continues_counted (continues_template le parameters)).bind fun x => ?_
  obtain ⟨⟨node, scope⟩, mistaken⟩ := x
  cases checked with
  | error report => exact .pure ()
  | ok parameters =>
    cases scope with
    | none => exact .pure ()
    | some scope =>
      refine .ite (.pure ()) ?_
      split
      · rename_i definition warnings _
        have warned : Keeps cs (warnings.forM fun warning => note (warning.atOffset name.start))
            (warnings.forM fun warning => note (warning.atOffset name.start)) :=
          continues_nodewise (.forM fun _ => .note _)
        exact warned.bind fun _ => continues_registerMacro definition name.start
      · exact continues_note _
      · exact .throw _ _

lemma continues_macroBody {fuel more : Nat} (le : fuel ≤ more) (name : Token)
    (signature : Signature) (parameters : List Parameter) :
    Keeps cs (macroBody options fuel name signature parameters)
      (macroBody options more name signature parameters) := by
  rw [macroBody_eq, macroBody_eq]
  split
  · exact (continues_note _).bind fun _ => continues_macroTemplate le name signature parameters _
  · exact continues_macroTemplate le name signature parameters _

lemma continues_macroHead {fuel more : Nat} (le : fuel ≤ more) (function : Bool) (name : Token) :
    Keeps cs (macroHead options fuel function name) (macroHead options more function name) := by
  refine (yields_attachedOpener? name).bind fun opener => ?_
  cases opener with
  | none => exact .pure _
  | some opener =>
    refine (continues_skipToken false .word).bind fun _ => (continues_await _).bind fun _ => ?_
    have parameters : Keeps cs
        (parameterList options (opener.kind.closer?.getD .rParen) fuel [] true)
        (parameterList options (opener.kind.closer?.getD .rParen) more [] true) :=
      (continues_within options le).1 (.parameters (opener.kind.closer?.getD .rParen) [] true)
        (by simpa [Reading.plain] using closer_ne_endOfInput opener.kind)
    exact parameters.bind fun found => continues_settle.bind fun _ => .pure _

/-- Behind a step that reports what is wrong with its value only a right one matters. -/
lemma Yields.reports {step other : Parser α} {next next' : α → Parser β} {property : α → Prop}
    {W : β → ParserState → ParserState → Prop} (first : Keeps cs step other)
    (reports : Reports step property) (blind : ∀ a, ¬ property a → Blind (next a))
    (second : ∀ a, property a → Yields (Beside cs) W (next a) (next' a)) :
    Yields (Beside cs) W (step >>= next) (other >>= next') := by
  have stays : StaysLoud step := first.stays
  have whole : StaysLoud (step >>= next) := reports.stays (fun a holds => (second a holds).stays) blind
  refine ⟨whole, fun {s t} beside => ?_⟩
  have goes := first.goes beside
  match hstep : step s, hother : other t with
  | p, q =>
    rw [hstep, hother] at goes
    cases goes with
    | @ok a u v states =>
      rw [bind_ok hstep, bind_ok hother]
      refine (second a ?_).goes states
      exact (reports.told beside.attends hstep).resolve_left fun told => told states.silent
    | lost lost =>
      refine .lost ?_
      match p with
      | .error fault u =>
        simp only [Bind.bind, EStateM.bind, hstep]
        trivial
      | .ok a u =>
        rw [bind_ok hstep]
        by_cases holds : property a
        · exact lost_of_loud (second a holds).stays lost
        · have told := (reports.told beside.attends hstep).resolve_right holds
          match hnext : next a u with
          | .error fault v => trivial
          | .ok b v => exact .inl ((blind a holds).keeps_reports hnext told)

/-- **A macro statement** is the same in a longer text. -/
theorem continues_macroStatement {fuel more : Nat} (le : fuel ≤ more) (function : Bool) :
    Continues (Begun cs true) (Beside cs) (macroStatement options fuel function)
      (macroStatement options more function) := by
  refine (continues_advance true .word).bind fun word => ?_
  refine continues_advance_line .word (fun name => .ite (.refused _ _) ?_) fun {name} ends => ?_
  · refine .reports (continues_macroHead le function name)
      (reports_macroHead options fuel function name) (fun found missing => ?_) fun found has => ?_
    · cases found with
      | none => exact blind_recover none
      | some found => exact absurd rfl missing
    cases found with
    | none => cases has
    | some found =>
      refine continues_peek_line .word (fun colon => .ite (.refused _ _) ?_)
        fun {colon colon'} ends breaks => ?_
      · exact (continues_skipToken false .word).bind fun _ => continues_macroBody le _ _ _
      · rw [if_pos (by rw [ends]; decide)]
        exact .refused _ _
  · rw [if_pos (by simp [ends, TokenKind.isText])]
    exact told_giveUp _ _

/-! ## Operators -/

instance : Attending (Prolonged cs) := ⟨fun prolonged => prolonged.attends⟩

instance : Attending (Parted cs) := ⟨fun parted => parted.attends⟩

/-- **What was read ahead is forgotten**, with the operators that it was cut with. -/
lemma parts_forget : Continues (Prolonged cs) (Parted cs) forget forget := by
  refine ⟨inferInstance, fun {s t} prolonged => .ok () { prolonged with
    same := ?_
    settled := ⟨rfl, trivial⟩
    settled' := ⟨rfl, trivial⟩ }⟩
  exact congrArg (fun u : ParserState => { u with tokens := t.tokens.forget }) prolonged.same

/-- What is noted is lost. -/
lemma Yields.noted {R : ParserState → ParserState → Prop} [Attending R] {next other : Parser α}
    [stays : StaysLoud next] (report : Report) :
    Yields R Q (note report >>= fun _ => next) other := by
  have told : Told (note report) := ⟨fun {s} attends => by
    rw [note_eq, if_neg (by simp [attends])]
    exact .inl (by simp)⟩
  exact .told told.bind Attending.attends _

/-- **An operator is registered**, or refused with a report. -/
lemma parts_registerOperator (op : OperatorDefinition) (offset : Nat) :
    Continues (Prolonged cs) (Parted cs) (registerOperator options op offset)
      (registerOperator options op offset) := by
  have visible : Continues (Prolonged cs) (Prolonged cs) (enlistVisibleOperator op)
      (enlistVisibleOperator op) :=
    parts_modifyGet (fun _ _ => rfl) (.modifyGet fun _ loud => loud) (fun _ => rfl) fun _ => rfl
  have exported : Continues (Prolonged cs) (Prolonged cs) (enlistExportedOperator op)
      (enlistExportedOperator op) :=
    parts_modifyGet (fun _ _ => rfl) (.modifyGet fun _ loud => loud) (fun _ => rfl) fun _ => rfl
  rw [registerOperator_eq]
  refine visible.bind fun conflict => ?_
  cases conflict with
  | some conflict => exact .noted _
  | none =>
    refine exported.bind fun conflict => ?_
    cases conflict with
    | some conflict => exact .noted _
    | none => exact parts_forget

lemma continues_operatorAlias : Keeps cs operatorAlias operatorAlias := by
  refine continues_peek_line .word (fun colon => .ite (.done _) ?_) fun {colon colon'} ends breaks => ?_
  · refine (continues_skipToken false .word).bind fun _ => continues_advance_line .symbol
      (fun token => .ite (.pure _) (continues_giveUp _ _)) fun {token} ends => ?_
    rw [if_neg (by simp [ends, TokenKind.isText])]
    exact (told_giveUp _ _).bind
  · rw [if_pos (by rw [ends]; decide), if_pos (by rw [breaks]; decide)]
    exact .pure _

/-- **An operator statement** is the same in a longer text. -/
theorem parts_operatorStatement {fuel more : Nat} (le : fuel ≤ more) (keyword : Bool) :
    Continues (Begun cs true) (Parted cs) (operatorStatement options fuel keyword)
      (operatorStatement options more keyword) := by
  have given (a : Unit) : Continues (Beside cs) (Parted cs) (pure a) (pure a) :=
    .of_value a Beside.toParted
  refine (continues_advance true .word).bind fun word => ?_
  refine continues_advance_line .symbol (fun symbol => .ite (.refused _ _) ?_) fun {symbol} ends => ?_
  · refine continues_advance_line .word (fun asWord => .ite (.refused _ _) ?_) fun {asWord} ends => ?_
    · have clauses : Keeps cs (clauseList fuel []) (clauseList more []) :=
        (continues_within options le).1 (.clauses []) rfl
      refine clauses.bind fun clauses => ?_
      cases clauses with
      | none => exact given ()
      | some clauses =>
        refine continues_operatorAlias.bind fun aliasName => ?_
        cases aliasName with
        | none => exact given ()
        | some aliasName =>
          dsimp only
          split
          · exact (parts_registerOperator _ _).before fun beside => beside.toProlonged
          · exact (continues_note _).mono fun beside => beside.toParted
    · rw [if_pos (by simp [Token.isWord, ends])]
      exact told_giveUp _ _
  · rw [if_pos (by simp [ends, TokenKind.isText])]
    exact told_giveUp _ _

/-! ## Imports -/

lemma continues_importPath? : Keeps cs importPath? importPath? := by
  refine continues_advance_line .value (fun token => .ite (.pure _) (continues_giveUp _ _))
    fun {token} ends => ?_
  rw [if_neg (by simp [ends, TokenKind.isText])]
  exact (told_giveUp _ _).bind

/-- **A resolver answers both parsers alike.** -/
lemma continues_resolveImport (path : String) :
    Keeps cs (resolveImport resolver path) (resolveImport resolver path) := by
  refine ⟨inferInstance, fun {s t} beside => ?_⟩
  have same : t.imports = s.imports := by rw [beside.same]
  rw [resolveImport_eq, resolveImport_eq, same]
  cases resolver path s.imports with
  | error fault imports => exact .lost trivial
  | ok answer imports =>
    exact .ok answer (beside.change (f := fun u => { u with imports := imports }) (fun _ _ => rfl)
      (fun _ => rfl) rfl rfl)

/-- What can be told from the token behind the next one. -/
def lookPast (skipBreaks : Bool) (mode behind : Mode) (f : Token → α) : Parser α := do
  let _ ← lookAhead skipBreaks mode
  let after ← lookAhead false behind
  rewind
  return f after

/-- **A look past the next token**, if it does not tell the end of a text from the end of a line. -/
lemma continues_lookPast (skipBreaks : Bool) (mode behind : Mode) {f : Token → α}
    (blunt : ∀ {token token' : Token}, token.kind = .endOfInput → token'.kind = .lineBreak →
      f token = f token') :
    Continues (Begun cs skipBreaks) (Begun cs skipBreaks) (lookPast skipBreaks mode behind f)
      (lookPast skipBreaks mode behind f) := by
  have stays : StaysLoud (lookPast skipBreaks mode behind f) := by
    unfold lookPast
    infer_instance
  refine ⟨stays, fun {s t} begun => ?_⟩
  obtain ⟨u, look, looks, -⟩ := (looksTo_of_settled begun.settled).look skipBreaks mode
  obtain ⟨v, next, looks, -⟩ := looks.look false behind
  obtain ⟨w, back, settled, moves, here, -⟩ := looks.rewind
  have more : ¬ w.Ended skipBreaks := by
    rw [ParserState.Ended, ParserState.reads, moves.lexis, here]
    exact begun.more
  have taken {token token' : Token} {s₁ t₁ : ParserState} (lapsed : Lapsed cs s₁ t₁)
      (same : f token = f token') : Goes (fun _ => Beside cs)
        ((do rewind; return f token : Parser α) s₁) ((do rewind; return f token' : Parser α) t₁) := by
    rw [same]
    exact .ok _ lapsed.rewind
  have goes : Goes (fun _ => Beside cs) (lookPast skipBreaks mode behind f s)
      (lookPast skipBreaks mode behind f t) :=
    begun.toBeside.peering.look_bind (fun _ _ => inferInstance) (fun _ => begun.more_of mode)
      (fun _ peering => peering.look_bind (fun _ _ => inferInstance) (fun far => by cases far)
        (fun _ peering => taken peering.toLapsed rfl)
        fun _ _ _ _ breaks ends lapsed => taken lapsed (blunt ends breaks))
      fun _ _ _ _ _ ends => absurd ends (begun.more_of mode)
  have run : lookPast skipBreaks mode behind f s = .ok _ w :=
    (bind_ok look).trans ((bind_ok next).trans (bind_ok back))
  rw [run] at goes ⊢
  generalize lookPast skipBreaks mode behind f t = q at goes ⊢
  cases goes with
  | ok _ beside => exact .ok _ ⟨beside, more⟩
  | lost lost => exact .lost lost

/-- The word `public` is a mark for both parsers, or for none. -/
lemma continues_publicMark : Keeps cs publicMark publicMark := by
  have public_eq : publicMark = peek false .word >>= fun word =>
      if word.isWord "public" then
        lookPast false .word .value (fun after => after.kind.isText) >>= fun marks =>
          if marks then skipToken false .word >>= fun _ => pure true else pure false
      else pure false := by
    simp only [publicMark, lookPast, bind_assoc, pure_bind]
  rw [public_eq]
  refine continues_peek_line .word (fun word => .ite ?_ (.done false)) fun {word word'} ends breaks => ?_
  · refine (continues_lookPast false .word .value fun ends breaks => ?_).bind fun marks =>
      .ite ((continues_skipToken false .word).bind fun _ => .pure true) (.done false)
    simp [ends, breaks, TokenKind.isText]
  · rw [if_neg (by simp [Token.isWord, ends]), if_neg (by simp [Token.isWord, breaks])]
    exact .pure false

/-- Either nothing is noted, or something is lost. -/
lemma Yields.notes {R : ParserState → ParserState → Prop} [Attending R] (reports : List Report)
    (f : Report → Report) : Continues R R (reports.forM fun report => note (f report))
      (reports.forM fun report => note (f report)) := by
  cases reports with
  | nil => exact .pure ()
  | cons report reports => exact .noted _

lemma parts_takeImport (isPublic : Bool) (path : String) (offset : Nat)
    (answer : Except ImportFailure (Shared Definitions)) :
    Continues (Beside cs) (Parted cs) (takeImport isPublic path offset answer)
      (takeImport isPublic path offset answer) := by
  cases answer with
  | error failure => exact continues_complain _ _
  | ok definitions =>
    have visible : Continues (Prolonged cs) (Prolonged cs) (importVisible definitions.value)
        (importVisible definitions.value) :=
      parts_modifyGet (fun _ _ => rfl) (.modifyGet fun _ loud => loud) (fun _ => rfl) fun _ => rfl
    have exported : Continues (Prolonged cs) (Prolonged cs) (importExported definitions.value)
        (importExported definitions.value) :=
      parts_modifyGet (fun _ _ => rfl) (.modifyGet fun _ loud => loud) (fun _ => rfl) fun _ => rfl
    have taken : Continues (Prolonged cs) (Parted cs)
        (takeImport isPublic path offset (.ok definitions))
        (takeImport isPublic path offset (.ok definitions)) := by
      refine visible.bind fun conflicts => ?_
      cases isPublic with
      | false => exact (Yields.pure []).bind fun _ => (Yields.notes _ _).bind fun _ => parts_forget
      | true => exact exported.bind fun _ => (Yields.notes _ _).bind fun _ => parts_forget
    exact taken.before fun beside => beside.toProlonged

/-- **An importing statement** is the same in a longer text. -/
theorem parts_useStatement : Continues (Begun cs true) (Parted cs) (useStatement resolver)
    (useStatement resolver) := by
  refine (continues_skipToken true .word).bind fun _ => continues_publicMark.bind fun isPublic =>
    continues_importPath?.bind fun found => ?_
  rcases found with _ | ⟨path, offset⟩
  · exact .of_value () Beside.toParted
  · show Continues (Beside cs) (Parted cs)
      (resolveImport resolver path >>= takeImport isPublic path offset)
      (resolveImport resolver path >>= takeImport isPublic path offset)
    exact (continues_resolveImport path).bind (parts_takeImport isPublic path offset)

/-! ## Taking definitions back -/

lemma continues_warnIfNone {R : ParserState → ParserState → Prop} [Attending R]
    (removed offset : Nat) (cause : Cause) :
    Continues R R (warnIfNone removed offset cause) (warnIfNone removed offset cause) := by
  refine .ite ?_ (.pure ())
  rw [← bind_pure (note _)]
  exact .noted _

lemma continues_emptyShape (name : Token) : Keeps cs (emptyShape name) (emptyShape name) := by
  refine (yields_attachedOpener? name).bind fun opener => ?_
  cases opener with
  | none => exact .pure _
  | some opener =>
    refine (continues_skipToken false .word).bind fun _ => continues_advance_line .word
      (fun close => .ite (.pure _) (continues_giveUp _ _)) fun {close} ends => ?_
    rw [if_neg (by rw [ends]; cases opener.kind <;> simp [TokenKind.closer?])]
    exact (told_giveUp _ _).bind

lemma continues_undefineMacro (function : Bool) :
    Keeps cs (undefineMacro function) (undefineMacro function) := by
  refine continues_advance_line .word (fun name => .ite (.refused _ _) ?_) fun {name} ends => ?_
  · refine (continues_emptyShape name).bind fun shape => ?_
    cases shape with
    | none => exact .pure ()
    | some shape =>
      have removed (kinds : List MacroKind) : Keeps cs (removeMacros name.content kinds)
          (removeMacros name.content kinds) :=
        continues_modifyGet (fun _ _ => rfl) (.modifyGet fun _ loud => loud) (fun _ => rfl) (fun _ => rfl) fun _ => rfl
      exact (removed _).bind fun _ => continues_warnIfNone _ _ _
  · rw [if_pos (by simp [ends, TokenKind.isText])]
    exact told_giveUp _ _

lemma parts_undefineOperator (word : String) (keyword : Bool) :
    Continues (Beside cs) (Parted cs) (undefineOperator word keyword)
      (undefineOperator word keyword) := by
  refine continues_advance_line .symbol (fun symbol => .ite (.refused _ _) ?_) fun {symbol} ends => ?_
  · have removed : Continues (Prolonged cs) (Prolonged cs)
        (removeOperators symbol.content keyword) (removeOperators symbol.content keyword) :=
      parts_modifyGet (fun _ _ => rfl) (.modifyGet fun _ loud => loud) (fun _ => rfl) fun _ => rfl
    refine Yields.before ?_ fun beside => beside.toProlonged
    exact removed.bind fun _ => (continues_warnIfNone _ _ _).bind fun _ => parts_forget
  · rw [if_pos (by simp [ends, TokenKind.isText])]
    exact told_giveUp _ _

lemma parts_dropImport (path : String) (offset : Nat)
    (answer : Except ImportFailure (Shared Definitions)) :
    Continues (Beside cs) (Parted cs) (dropImport path offset answer)
      (dropImport path offset answer) := by
  cases answer with
  | error failure => exact .told (told_complain _ _) Attending.attends _
  | ok definitions =>
    have removed : Continues (Prolonged cs) (Prolonged cs) (removeImported definitions.value)
        (removeImported definitions.value) :=
      parts_modifyGet (fun _ _ => rfl) (.modifyGet fun _ loud => loud) (fun _ => rfl) fun _ => rfl
    refine Yields.before ?_ fun beside => beside.toProlonged
    exact removed.bind fun _ => (continues_warnIfNone _ _ _).bind fun _ => parts_forget

lemma parts_undefineImport : Continues (Beside cs) (Parted cs) (undefineImport resolver)
    (undefineImport resolver) := by
  refine continues_importPath?.bind fun found => ?_
  rcases found with _ | ⟨path, offset⟩
  · exact .of_value () Beside.toParted
  · show Continues (Beside cs) (Parted cs) (resolveImport resolver path >>= dropImport path offset)
      (resolveImport resolver path >>= dropImport path offset)
    exact (continues_resolveImport path).bind (parts_dropImport path offset)

/-- **A statement that takes definitions back** is the same in a longer text. -/
theorem parts_undefineStatement : Continues (Begun cs true) (Parted cs) (undefineStatement resolver)
    (undefineStatement resolver) := by
  refine (continues_skipToken true .word).bind fun _ =>
    continues_advance_line .word (fun what => ?_) fun {what} ends => ?_
  · cases if what.kind = .literal then StatementKeyword.ofText? what.content else none with
    | none => exact .refused _ _
    | some target =>
      cases target with
      | template => exact (continues_undefineMacro false).mono fun beside => beside.toParted
      | function => exact (continues_undefineMacro true).mono fun beside => beside.toParted
      | operator => exact parts_undefineOperator _ _
      | keyword => exact parts_undefineOperator _ _
      | use => exact parts_undefineImport
      | undefine => exact .refused _ _
  · rw [if_neg (by rw [ends]; decide)]
    exact told_giveUp _ _

/-- **A definition statement is the same in a longer text**, whatever it defines. -/
theorem parts_definitionStatement {fuel more : Nat} (le : fuel ≤ more) (opening : StatementKeyword) :
    Continues (Begun cs true) (Parted cs) (definitionStatement options resolver fuel opening)
      (definitionStatement options resolver more opening) := by
  cases opening with
  | template => exact (continues_macroStatement le false).mono fun beside => beside.toParted
  | function => exact (continues_macroStatement le true).mono fun beside => beside.toParted
  | operator => exact parts_operatorStatement le false
  | keyword => exact parts_operatorStatement le true
  | undefine => exact parts_undefineStatement
  | use => exact parts_useStatement

end TreeLang.Parser
