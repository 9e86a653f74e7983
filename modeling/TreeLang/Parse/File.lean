import TreeLang.Parse.Statement

/-!
# Reading a source

A source is a sequence of statements and values, separated by line breaks or commas.  Reading it
never stops early: a mistake costs the rest of its statement, and so does a fault.

* `parseStatement` — one statement or one value.
* `isolate` — what is left after a fault.
* **`parseAll`** — everything up to the end of the source.
-/

namespace TreeLang.Parser

variable (options : CompileOptions) (resolver : Resolver)

/-- One statement, or one value with its node. -/
def parseStatement (token : Token) : Parser (Option Node) := do
  let fuel ← valueFuel
  match ← statementKeyword? token with
  | some opening =>
    definitionStatement options resolver fuel opening
    return none
  | none => return some (← parseValue options fuel)

/-- The separator behind a statement. -/
def endStatement : Parser Unit := do
  let token ← peek false .word
  if token.kind = .lineBreak || token.kind = .comma then skipToken false .word
  else if token.kind = .endOfInput then return
  else giveUp token.start (.expectedStatementEnd token)

/-- **What is left after a fault** in the statement at an offset: nothing of the statement but a
report, and the state that every statement begins with. -/
def isolate (offset : Nat) (fault : Fault) : Parser Unit := do
  modify fun s => { s with
    scope := none
    depth := 0
    recovering := false
    suppressed := false
    awaited := []
    tokens := s.tokens.forget }
  giveUp offset (.fault fault.detail)

/-- **The values of a source** up to its end, behind those read already, the latest first. -/
def parseAll : Nat → List Node → Parser (List Node)
  | 0, _ => throw .exhausted
  | fuel + 1, values => do
    let token ← peek true .word
    if token.kind = .endOfInput then
      noteLexical
      return values.reverse
    else if token.kind = .comma then
      skipToken true .word
      complain token.start .redundantComma
      parseAll fuel values
    else if token.kind = .openComment then
      skipToken true .word
      parseAll fuel values
    else if token.kind.isCloser then
      skipToken true .word
      complain token.start (.unexpectedCloser token)
      parseAll fuel values
    else
      match ← attempt (parseStatement options resolver token) with
      | .ok value =>
        endStatement
        parseAll fuel (value.toList ++ values)
      | .error fault =>
        isolate token.start fault
        parseAll fuel values

end TreeLang.Parser
