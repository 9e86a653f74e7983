import TreeLang.Keyword
import TreeLang.Operator.Clause
import TreeLang.Parse.Value
import TreeLang.Priority.Reading

/-!
# Reading statements

A statement defines a macro or an operator, takes definitions back, or imports them.  A statement
that is mistaken changes no definition: it is read to the point of the mistake, and the rest of it
is skipped.

* `macroStatement` — `macro` and `fn`.
* `operatorStatement` — `operator` and `keyword`.
* `undefineStatement` — `undef`.
* `useStatement` — `use`.
-/

namespace TreeLang.Parser

/-- Records a mistake and skips the rest of the statement. -/
def giveUp (offset : Nat) (cause : Cause) : Parser Unit := do
  complain offset cause
  recover none

/-- The kind of macro that is defined with an opener behind its name, or without one. -/
def macroKindOf (function : Bool) (opener : Option TokenKind) : MacroKind :=
  match function, opener with
  | false, none => .constant
  | false, some .lBrace => .object
  | false, some .lBracket => .list
  | false, some _ => .operation
  | true, none => .access
  | true, some .lBrace => .objectFunction
  | true, some .lBracket => .listFunction
  | true, some _ => .operationFunction

/-- The token behind a name, if it opens a group that belongs to the name. -/
def attachedOpener? (name : Token) : Parser (Option Token) := do
  let opener ← peek false .word
  return if opener.kind.isOpener && opener.start = name.stop then some opener else none

/-! ## Macros -/

/-- The type behind the colon of a parameter.  A mistaken one leaves the parameter as it is. -/
def parameterType (parameter : Parameter) : Parser (Parameter × Bool) := do
  if (← peek false .parameter).kind = .colon then
    skipToken false .parameter
    let type ← advance false .word
    match if type.kind = .literal then ShapeSet.ofAnnotation? type.content else none with
    | some shapes => return (parameter.withType shapes, true)
    | none =>
      complain type.start (.unknownParameterType type)
      return (parameter, false)
  else return (parameter, true)

/-- The fallback behind the equals sign of a parameter. -/
def parameterFallback (options : CompileOptions) (fuel : Nat) (parameter : Parameter) :
    Parser Parameter := do
  if (← peek false .parameter).kind = .equals then
    skipToken false .parameter
    return { parameter with fallback := some (← parseValue options fuel) }
  else return parameter

/-- Takes the separator behind a parameter; answers whether there was one or the list ends. -/
def parameterSeparator (closer : TokenKind) (parameter : Parameter) : Parser Bool := do
  let token ← peek false .parameter
  if token.kind = .comma || token.kind = .lineBreak then
    skipToken false .parameter
    return true
  else if token.kind = closer || token.kind = .endOfInput || (← closesAwaited token.kind) then
    return true
  else
    complain token.start (.expectedParameterSeparator closer parameter.name token)
    recover (some closer)
    return false

/-- **The parameters of a macro** up to the closer of their list, behind those read already;
nothing if one was mistaken. -/
def parameterList (options : CompileOptions) (closer : TokenKind) :
    Nat → List Parameter → Bool → Parser (Option (List Parameter))
  | 0, _, _ => throw .exhausted
  | fuel + 1, parameters, complete => do
    let token ← peek true .parameter
    if token.kind = closer then
      skipToken true .parameter
      return if complete then some parameters else none
    else if token.kind = .endOfInput || (← closesAwaited token.kind) then
      complain token.start (.openParameters closer)
      return none
    else if token.kind = .comma then
      skipToken true .parameter
      complain token.start .redundantComma
      parameterList options closer fuel parameters complete
    else if token.kind.isText then
      skipToken true .parameter
      let (parameter, typed) ← parameterType (.plain token.content)
      let parameter ← parameterFallback options fuel parameter
      let separated ← parameterSeparator closer parameter
      parameterList options closer fuel (parameters ++ [parameter]) (complete && typed && separated)
    else
      complain token.start (.expectedParameterName token)
      recover (some closer)
      parameterList options closer fuel parameters false

/-- Registers a macro, for this source and for its importers. -/
def registerMacro (definition : MacroDefinition) (offset : Nat) : Parser Unit := do
  let s ← get
  let (shared, supply) := s.imports.supply.share definition
  set { s with imports := { s.imports with supply := supply } }
  match s.visible.macros.add shared with
  | .error report => note (report.atOffset offset)
  | .ok macros =>
    modify fun s => { s with visible := { s.visible with macros := macros } }
    match s.exported.macros.add shared with
    | .error report => note (report.atOffset offset)
    | .ok macros => modify fun s => { s with exported := { s.exported with macros := macros } }

/-- The kind of a macro and the parameters in its brackets, from behind its name. -/
def macroHead (options : CompileOptions) (fuel : Nat) (function : Bool) (name : Token) :
    Parser (Option (MacroKind × List Parameter)) := do
  match ← attachedOpener? name with
  | none => return some (macroKindOf function none, [])
  | some opener =>
    skipToken false .word
    let closer := opener.kind.closer?.getD .rParen
    await closer
    let parameters ← parameterList options closer fuel [] true
    settle
    return parameters.map fun parameters => (macroKindOf function (some opener.kind), parameters)

/-- **The template of a macro**, read under the parameters given, and the marks made on it. -/
def template (options : CompileOptions) (fuel : Nat) (parameters : List Parameter) :
    Parser (Node × Option TemplateScope) := do
  let outer := (← get).scope
  modify fun s => { s with scope := some (.start (parameters.map (·.name))) }
  let node ← parseValue options fuel
  let scope := (← get).scope
  modify fun s => { s with scope := outer }
  return (node, scope)

/-- Reads the template of a macro and registers the macro, if neither its parameters nor its
template is mistaken. -/
def macroBody (options : CompileOptions) (fuel : Nat) (name : Token) (signature : Signature)
    (parameters : List Parameter) : Parser Unit := do
  let checked := checkParameters signature.kind parameters
  match checked with
  | .error report => note (report.atOffset name.start)
  | .ok _ => pure ()
  let errorsBefore ← errorCount
  let (node, scope) ← template options fuel parameters
  match checked, scope with
  | .ok parameters, some scope =>
    -- An incomplete template would register a macro that nobody wrote.
    if errorsBefore < (← errorCount) then return
    match MacroDefinition.build signature parameters node scope.references scope.deferred with
    | .ok (definition, warnings) =>
      warnings.forM fun warning => note (warning.atOffset name.start)
      registerMacro definition name.start
    | .error (.mistake report) => note (report.atOffset name.start)
    | .error (.fault fault) => throw fault
  | _, _ => return

/-- **A macro statement.**  A receiver macro has the receiver as its first parameter. -/
def macroStatement (options : CompileOptions) (fuel : Nat) (function : Bool) : Parser Unit := do
  let word ← advance true .word
  let name ← advance false .word
  if !name.kind.isText then
    giveUp name.start (.expectedMacroNameAfter word.content name)
  else
    match ← macroHead options fuel function name with
    | none => recover none
    | some (kind, parameters) =>
      let signature : Signature := ⟨name.content, kind⟩
      let colon ← peek false .word
      if colon.kind ≠ .colon then
        giveUp colon.start (.expectedTemplateColon signature colon)
      else
        skipToken false .word
        macroBody options fuel name signature
          (if function then .plain "self" :: parameters else parameters)

/-! ## Operators -/

/-- Registers an operator, for this source and for its importers.  What was read ahead was cut with
the old operators and is read anew. -/
def registerOperator (options : CompileOptions) (op : OperatorDefinition) (offset : Nat) :
    Parser Unit := do
  let reject (conflict : OperatorConflict) : Parser Unit :=
    note ((Report.errorAt offset (.rejectedOperator op.name conflict)).withSeverity
      options.invalidOperatorSeverity)
  let s ← get
  match s.visible.operators.add op with
  | .error conflict => reject conflict
  | .ok operators =>
    set { s with visible := { s.visible with operators := operators } }
    match s.exported.operators.add op with
    | .error conflict => reject conflict
    | .ok operators =>
      modify fun s => { s with exported := { s.exported with operators := operators } }
  forget

/-- The priority in parentheses behind a clause: nothing if there is none, and no answer if it is
mistaken. -/
def clausePriority : Parser (Option (Option Priority)) := do
  if (← peek false .word).kind ≠ .lParen then return some none
  skipToken false .word
  let number ← advance false .word
  match if number.kind = .literal then Priority.ofText? number.content else none with
  | some (.finite rank) =>
    let close ← advance false .word
    if close.kind = .rParen then return some (some (.finite rank))
    giveUp close.start (.openPriority close)
    return none
  | _ =>
    giveUp number.start (.invalidPriority number)
    return none

/-- The clauses of an operator statement, joined by `and`, behind those read already; no answer if
one is mistaken. -/
def clauseList : Nat → List Clause → Parser (Option (List Clause))
  | 0, _ => throw .exhausted
  | fuel + 1, clauses => do
    let word ← advance false .word
    if word.kind ≠ .literal then
      giveUp word.start (.expectedProperty word)
      return none
    else
      match ← clausePriority with
      | none => return none
      | some priority =>
        let clauses := clauses ++ [⟨word.content, priority, word.start⟩]
        if (← peek false .word).isWord "and" then
          skipToken false .word
          clauseList fuel clauses
        else return some clauses

/-- The alias behind a colon: nothing if there is none, and no answer if it is mistaken. -/
def operatorAlias : Parser (Option (Option String)) := do
  if (← peek false .word).kind ≠ .colon then return some none
  skipToken false .word
  let token ← advance false .symbol
  if token.kind.isText then return some (some token.content)
  giveUp token.start (.expectedAlias token)
  return none

/-- **An operator statement.** -/
def operatorStatement (options : CompileOptions) (fuel : Nat) (keyword : Bool) : Parser Unit := do
  let word ← advance true .word
  let symbol ← advance false .symbol
  if !symbol.kind.isText || symbol.content.isEmpty then
    giveUp symbol.start (.expectedSymbol word.content symbol)
  else
    let asWord ← advance false .word
    if !asWord.isWord "as" then
      giveUp asWord.start (.expectedAs symbol.content asWord)
    else
      match ← clauseList fuel [] with
      | none => return
      | some clauses =>
        match ← operatorAlias with
        | none => return
        | some aliasName =>
          match buildOperator symbol.content keyword clauses aliasName with
          | .ok op => registerOperator options op symbol.start
          | .error report => note report

/-! ## Imports -/

/-- The path behind an importing keyword, with its offset. -/
def importPath? : Parser (Option (String × Nat)) := do
  let token ← advance false .value
  if token.kind.isText && !token.content.isEmpty then return some (token.content, token.start)
  giveUp token.start (.expectedImportPath token)
  return none

/-- The definitions behind a path; a fault of the resolver is one of the statement. -/
def resolveImport (resolver : Resolver) (path : String) :
    Parser (Except ImportFailure (Shared Definitions)) := fun s =>
  match resolver path s.imports with
  | .ok answer imports => .ok answer { s with imports := imports }
  | .error fault imports => .error fault { s with imports := imports }

/-- Whether `public` stands before a path.  On its own it is a path itself. -/
def publicMark : Parser Bool := do
  if (← peek false .word).isWord "public" then
    let _ ← lookAhead false .word
    let after ← lookAhead false .value
    rewind
    if after.kind.isText then
      skipToken false .word
      return true
    else return false
  else return false

/-- Copies imported definitions into the visible ones; answers the conflicts. -/
def importVisible (definitions : Definitions) : Parser (List Report) :=
  modifyGet fun s =>
    let (conflicts, visible) := s.visible.copyFrom definitions
    (conflicts, { s with visible := visible })

/-- Copies imported definitions into the exported ones; answers the conflicts. -/
def importExported (definitions : Definitions) : Parser (List Report) :=
  modifyGet fun s =>
    let (conflicts, exported) := s.exported.copyFrom definitions
    (conflicts, { s with exported := exported })

/-- **An importing statement.**  What is imported publicly is handed on to importers. -/
def useStatement (resolver : Resolver) : Parser Unit := do
  skipToken true .word
  let isPublic ← publicMark
  match ← importPath? with
  | none => return
  | some (path, offset) =>
    match ← resolveImport resolver path with
    | .ok definitions =>
      let visibleConflicts ← importVisible definitions.value
      let exportedConflicts ← if isPublic then importExported definitions.value else pure []
      (visibleConflicts ++ exportedConflicts).forM fun conflict =>
        note (conflict.asWarning.atOffset offset)
    | .error failure => complain offset (.unresolvedImport path failure)
    forget

/-! ## Taking definitions back -/

/-- Takes macros of a name back; answers how many there were. -/
def removeMacros (name : String) (kinds : List MacroKind) : Parser Nat :=
  modifyGet fun s =>
    let (fromVisible, visible) := s.visible.macros.remove name kinds
    let (fromExported, exported) := s.exported.macros.remove name kinds
    (fromVisible + fromExported,
      { s with
        visible := { s.visible with macros := visible }
        exported := { s.exported with macros := exported } })

/-- Takes operators of a name back; answers how many there were. -/
def removeOperators (name : String) (keyword : Bool) : Parser Nat :=
  modifyGet fun s =>
    let (fromVisible, visible) := s.visible.operators.remove name keyword
    let (fromExported, exported) := s.exported.operators.remove name keyword
    (fromVisible.length + fromExported.length,
      { s with
        visible := { s.visible with operators := visible }
        exported := { s.exported with operators := exported } })

/-- Takes everything imported from somewhere back; answers how much there was. -/
def removeImported (definitions : Definitions) : Parser Nat :=
  modifyGet fun s =>
    let (fromVisible, visible) := s.visible.removeAll definitions
    let (fromExported, exported) := s.exported.removeAll definitions
    (fromVisible + fromExported, { s with visible := visible, exported := exported })

/-- Warns when nothing was there to be taken back. -/
def warnIfNone (removed offset : Nat) (cause : Cause) : Parser Unit :=
  if removed = 0 then note (Report.errorAt offset cause).asWarning else pure ()

/-- The empty brackets behind the name of a macro to be taken back: nothing if there are none, and
no answer if they are mistaken. -/
def emptyShape (name : Token) : Parser (Option (Option TokenKind)) := do
  match ← attachedOpener? name with
  | none => return some none
  | some opener =>
    skipToken false .word
    let close ← advance false .word
    if some close.kind = opener.kind.closer? then return some (some opener.kind)
    giveUp close.start (.expectedEmptyShape close)
    return none

/-- Takes a macro back: of one kind when its shape is given, and otherwise a receiver macro without
operand, or a macro of every other kind. -/
def undefineMacro (function : Bool) : Parser Unit := do
  let name ← advance false .word
  if !name.kind.isText then giveUp name.start (.expectedMacroName name)
  else
    match ← emptyShape name with
    | none => return
    | some shape =>
      let kinds := match function, shape with
        | false, none => [.constant, .object, .list, .operation]
        | _, _ => [macroKindOf function shape]
      let removed ← removeMacros name.content kinds
      warnIfNone removed name.start (.unknownMacro name.content)

/-- Takes an operator back. -/
def undefineOperator (word : String) (keyword : Bool) : Parser Unit := do
  let symbol ← advance false .symbol
  if !symbol.kind.isText then giveUp symbol.start (.expectedSymbol word symbol)
  else
    let removed ← removeOperators symbol.content keyword
    warnIfNone removed symbol.start (.unknownOperator word symbol.content)
    forget

/-- Takes an import back. -/
def undefineImport (resolver : Resolver) : Parser Unit := do
  match ← importPath? with
  | none => return
  | some (path, offset) =>
    match ← resolveImport resolver path with
    | .error failure => complain offset (.unresolvedImport path failure)
    | .ok definitions =>
      let removed ← removeImported definitions.value
      warnIfNone removed offset (.nothingImported path)
      forget

/-- **A statement that takes definitions back.** -/
def undefineStatement (resolver : Resolver) : Parser Unit := do
  skipToken true .word
  let what ← advance false .word
  match if what.kind = .literal then StatementKeyword.ofText? what.content else none with
  | some .template => undefineMacro false
  | some .function => undefineMacro true
  | some .operator => undefineOperator what.content false
  | some .keyword => undefineOperator what.content true
  | some .use => undefineImport resolver
  | _ => giveUp what.start (.expectedUndefineTarget what)

/-! ## All statements -/

/-- **A definition statement**, by the keyword it begins with. -/
def definitionStatement (options : CompileOptions) (resolver : Resolver) (fuel : Nat) :
    StatementKeyword → Parser Unit
  | .template => macroStatement options fuel false
  | .function => macroStatement options fuel true
  | .operator => operatorStatement options fuel false
  | .keyword => operatorStatement options fuel true
  | .undefine => undefineStatement resolver
  | .use => useStatement resolver

/-- The keyword that a statement begins with, if it is a definition statement.  A keyword that is
followed by nothing on its line, by a comma, or by an opener without a gap is an ordinary word. -/
def statementKeyword? (token : Token) : Parser (Option StatementKeyword) := do
  match if token.kind = .literal then StatementKeyword.ofText? token.content else none with
  | none => return none
  | some opening =>
    let _ ← lookAhead true .word
    let after ← lookAhead false .word
    rewind
    let attached := after.kind.isOpener && after.start = token.stop
    let alone := after.kind = .lineBreak || after.kind = .endOfInput || after.kind = .comma
    return if attached || alone then none else some opening

end TreeLang.Parser
