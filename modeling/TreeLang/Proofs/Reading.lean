import TreeLang.Proofs.Phrase

/-!
# How values are read

A text is well formed where a parser has nothing to complain of.  This file says what is well
formed, by rules over places in a text: which phrase is read from one place to another.  The rules
follow the tokens and nothing else; neither the macros in force nor the nodes that were made so far
have a say.

* `Lexis` — how a text is cut into tokens, and which tokens may be met.
* `Lexis.headAt?`, `Lexis.operatorAt?`, `Lexis.Separated` — what is decided by the next one or two
  tokens.
* **`Lexis.Atom`**, `Elements`, `Entries` — values, and the contents of groups.
* **`Lexis.Level`**, `Tail`, `Postfixes` — expressions, one group of operators after the other.
-/

namespace TreeLang

/-- How a text is cut into tokens. -/
structure Lexis where
  operators : OperatorRegistry
  policy : EscapePolicy
  /-- Which tokens may be met, those looked at and given back included. -/
  admits : Lexeme → Prop

/-- The mode in which the name of a group is read, given the mode of the value. -/
def Mode.ofNames : Mode → Mode
  | .operation => .operation
  | _ => .word

namespace Lexis

/-- The token at a place. -/
def read (lexis : Lexis) (skipBreaks : Bool) (mode : Mode) (place : Place) : Lexeme :=
  lex lexis.operators lexis.policy skipBreaks mode place

/-- The token behind the one that may be the name of a group. -/
def behindName (lexis : Lexis) (mode : Mode) (place : Place) : Lexeme :=
  lexis.read false mode (lexis.read true mode place).after

/-- The token behind a key. -/
def behindKey (lexis : Lexis) (place : Place) : Lexeme :=
  lexis.read false .key (lexis.read true .key place).after

/-- **The head of a group**, and the place after its opener, if a group begins at a place. -/
def headAt? (lexis : Lexis) (mode : Mode) (place : Place) :
    Option (Option Token × Token × Place) :=
  let first := lexis.read true mode place
  if first.token.kind.isOpener then some (none, first.token, first.after)
  else if first.token.kind.isText then
    let second := lexis.behindName mode place
    if second.token.kind.isOpener && second.token.start = first.token.stop then
      some (some first.token, second.token, second.after)
    else none
  else none

/-- The tokens looked at to find the head of a group may be met. -/
def MeetsHead (lexis : Lexis) (mode : Mode) (place : Place) : Prop :=
  lexis.admits (lexis.read true mode place) ∧
    ((lexis.read true mode place).token.kind.isText →
      lexis.admits (lexis.behindName mode place))

/-- **The operator of a group of operators** at a place, and the place after it. -/
def operatorAt? (lexis : Lexis) (group : PriorityGroup) (skipBreaks : Bool) (place : Place) :
    Option (OperatorDefinition × Place) :=
  let lexeme := lexis.read skipBreaks .operation place
  if lexeme.token.kind = .operator || lexeme.token.kind = .keyword then
    (group.find? lexeme.token.content (lexeme.token.kind = .keyword)).map (·, lexeme.after)
  else none

/-- **Behind an element**: a separator, which is taken, or the closer, which is not. -/
def Separated (lexis : Lexis) (mode : Mode) (closer : TokenKind) (place after : Place) : Prop :=
  let lexeme := lexis.read false mode place
  lexis.admits lexeme ∧
    ((lexeme.token.kind = .comma ∨ lexeme.token.kind = .lineBreak) ∧ after = lexeme.after ∨
      lexeme.token.kind = closer ∧ after = place)

/-- The postfix operators of a group behind an operand. -/
inductive Postfixes (lexis : Lexis) (group : PriorityGroup) : Phrase → Place → Phrase → Place → Prop
  | done {operand : Phrase} {p : Place}
      (absent : lexis.operatorAt? group false p = none)
      (met : lexis.admits (lexis.read false .operation p)) :
      Postfixes lexis group operand p operand p
  | more {operand phrase : Phrase} {op : OperatorDefinition} {p p₁ p₂ : Place}
      (found : lexis.operatorAt? group false p = some (op, p₁))
      (met : lexis.admits (lexis.read false .operation p))
      (rest : Postfixes lexis group (.postfixed op operand p₁.offset) p₁ phrase p₂) :
      Postfixes lexis group operand p phrase p₂

mutual

/-- **A value or an operand**, by the mode it is read in: a word, a quoted text, or a group. -/
inductive Atom (lexis : Lexis) : Mode → Bool → Place → Phrase → Place → Prop
  | word {mode : Mode} {expands : Bool} {p : Place}
      (head : lexis.headAt? mode.ofNames p = none)
      (meets : lexis.MeetsHead mode.ofNames p)
      (text : (lexis.read true mode p).token.kind.isText)
      (met : lexis.admits (lexis.read true mode p)) :
      Atom lexis mode expands p (.word (lexis.read true mode p).token expands)
        (lexis.read true mode p).after
  | object {mode : Mode} {expands : Bool} {name : Option Token} {opener : Token}
      {entries : List (Token × Phrase)} {stop : Nat} {p p₁ p₂ : Place}
      (head : lexis.headAt? mode.ofNames p = some (name, opener, p₁))
      (meets : lexis.MeetsHead mode.ofNames p)
      (kind : opener.kind = .lBrace)
      (content : Entries lexis p₁ entries stop p₂) :
      Atom lexis mode expands p (.object ⟨name, opener, expands⟩ entries stop) p₂
  | list {mode : Mode} {expands : Bool} {name : Option Token} {opener : Token}
      {elements : List Phrase} {stop : Nat} {p p₁ p₂ : Place}
      (head : lexis.headAt? mode.ofNames p = some (name, opener, p₁))
      (meets : lexis.MeetsHead mode.ofNames p)
      (kind : opener.kind = .lBracket)
      (content : Elements lexis .value .rBracket p₁ elements stop p₂) :
      Atom lexis mode expands p (.list ⟨name, opener, expands⟩ false elements stop) p₂
  | operation {mode : Mode} {expands : Bool} {name : Option Token} {opener : Token}
      {elements : List Phrase} {stop : Nat} {p p₁ p₂ : Place}
      (head : lexis.headAt? mode.ofNames p = some (name, opener, p₁))
      (meets : lexis.MeetsHead mode.ofNames p)
      (kind : opener.kind = .lParen)
      (content : Elements lexis .operation .rParen p₁ elements stop p₂) :
      Atom lexis mode expands p (.list ⟨name, opener, expands⟩ true elements stop) p₂

/-- The properties of an object up to its closer. -/
inductive Entries (lexis : Lexis) : Place → List (Token × Phrase) → Nat → Place → Prop
  | done {p : Place}
      (closer : (lexis.read true .key p).token.kind = .rBrace)
      (met : lexis.admits (lexis.read true .key p)) :
      Entries lexis p [] (lexis.read true .key p).token.stop (lexis.read true .key p).after
  | more {phrase : Phrase} {rest : List (Token × Phrase)} {stop : Nat} {p p₁ p₂ p₃ : Place}
      (text : (lexis.read true .key p).token.kind.isText)
      (met : lexis.admits (lexis.read true .key p))
      (colon : (lexis.behindKey p).token.kind = .colon)
      (metColon : lexis.admits (lexis.behindKey p))
      (value : Atom lexis .value true (lexis.behindKey p).after phrase p₁)
      (separated : lexis.Separated .key .rBrace p₁ p₂)
      (others : Entries lexis p₂ rest stop p₃) :
      Entries lexis p (((lexis.read true .key p).token, phrase) :: rest) stop p₃

/-- The elements of a list or an operation up to its closer. -/
inductive Elements (lexis : Lexis) : Mode → TokenKind → Place → List Phrase → Nat → Place → Prop
  | done {mode : Mode} {closer : TokenKind} {p : Place}
      (closed : (lexis.read true mode p).token.kind = closer)
      (met : lexis.admits (lexis.read true mode p)) :
      Elements lexis mode closer p [] (lexis.read true mode p).token.stop
        (lexis.read true mode p).after
  | more {mode : Mode} {closer : TokenKind} {phrase : Phrase} {rest : List Phrase} {stop : Nat}
      {p p₁ p₂ p₃ : Place}
      (met : lexis.admits (lexis.read true mode p))
      (element : Element lexis mode p phrase p₁)
      (separated : lexis.Separated mode closer p₁ p₂)
      (others : Elements lexis mode closer p₂ rest stop p₃) :
      Elements lexis mode closer p (phrase :: rest) stop p₃

/-- An element: an expression in an operation, and otherwise a value. -/
inductive Element (lexis : Lexis) : Mode → Place → Phrase → Place → Prop
  | value {phrase : Phrase} {p p₁ : Place} (atom : Atom lexis .value true p phrase p₁) :
      Element lexis .value p phrase p₁
  | expression {phrase : Phrase} {p p₁ : Place}
      (level : Level lexis lexis.operators.priorityGroups true p phrase p₁) :
      Element lexis .operation p phrase p₁

/-- **An expression of some groups of operators**, the loosest first.  Its first operand may be one
that is not offered to the macros. -/
inductive Level (lexis : Lexis) : List PriorityGroup → Bool → Place → Phrase → Place → Prop
  | operand {expands : Bool} {phrase : Phrase} {p p₁ : Place}
      (atom : Atom lexis .operation expands p phrase p₁) :
      Level lexis [] expands p phrase p₁
  | binary {group : PriorityGroup} {tighter : List PriorityGroup} {expands : Bool}
      {left phrase : Phrase} {p p₁ p₂ : Place} (fixity : group.fixity = .binary)
      (first : Level lexis tighter expands p left p₁)
      (others : Tail lexis group tighter left p₁ phrase p₂) :
      Level lexis (group :: tighter) expands p phrase p₂
  | postfixed {group : PriorityGroup} {tighter : List PriorityGroup} {expands : Bool}
      {operand phrase : Phrase} {p p₁ p₂ : Place} (fixity : group.fixity = .postfixed)
      (first : Level lexis tighter expands p operand p₁)
      (others : Postfixes lexis group operand p₁ phrase p₂) :
      Level lexis (group :: tighter) expands p phrase p₂
  | prefixed {group : PriorityGroup} {tighter : List PriorityGroup} {expands : Bool}
      {op : OperatorDefinition} {phrase : Phrase} {p p₁ p₂ : Place}
      (fixity : group.fixity = .prefixed)
      (found : lexis.operatorAt? group true p = some (op, p₁))
      (met : lexis.admits (lexis.read true .operation p))
      (operand : Level lexis (group :: tighter) expands p₁ phrase p₂) :
      Level lexis (group :: tighter) expands p (.prefixed op p.offset phrase) p₂
  | unprefixed {group : PriorityGroup} {tighter : List PriorityGroup} {expands : Bool}
      {phrase : Phrase} {p p₁ : Place} (fixity : group.fixity = .prefixed)
      (absent : lexis.operatorAt? group true p = none)
      (met : lexis.admits (lexis.read true .operation p))
      (operand : Level lexis tighter expands p phrase p₁) :
      Level lexis (group :: tighter) expands p phrase p₁

/-- The binary operators of a group behind an operand, with their right operands. -/
inductive Tail (lexis : Lexis) :
    PriorityGroup → List PriorityGroup → Phrase → Place → Phrase → Place → Prop
  | done {group : PriorityGroup} {tighter : List PriorityGroup} {left : Phrase} {p : Place}
      (absent : lexis.operatorAt? group false p = none)
      (met : lexis.admits (lexis.read false .operation p)) :
      Tail lexis group tighter left p left p
  | right {group : PriorityGroup} {tighter : List PriorityGroup} {left phrase : Phrase}
      {op : OperatorDefinition} {p p₁ p₂ : Place}
      (found : lexis.operatorAt? group false p = some (op, p₁))
      (met : lexis.admits (lexis.read false .operation p))
      (associativity : group.rightAssociative = true)
      (operand : Level lexis (group :: tighter) true p₁ phrase p₂) :
      Tail lexis group tighter left p (.binary op left phrase) p₂
  | left {group : PriorityGroup} {tighter : List PriorityGroup} {left right phrase : Phrase}
      {op : OperatorDefinition} {p p₁ p₂ p₃ : Place}
      (found : lexis.operatorAt? group false p = some (op, p₁))
      (met : lexis.admits (lexis.read false .operation p))
      (associativity : group.rightAssociative = false)
      (operand : Level lexis tighter (!op.accessor) p₁ right p₂)
      (others : Tail lexis group tighter (.binary op left right) p₂ phrase p₃) :
      Tail lexis group tighter left p phrase p₃

end

end Lexis

end TreeLang
