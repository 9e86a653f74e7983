import TreeLang.Import.Failure
import TreeLang.Macro.Signature
import TreeLang.Node.Path
import TreeLang.Operator.Basic
import TreeLang.Shape
import TreeLang.Token.Basic

/-!
# What can go wrong

Every problem found in a source has a *cause*.  A cause carries what the problem is about, a token,
a name, a signature, and determines how it is classified, how it is worded and which hints come
with it.

* `Category` — the six classes of problems.
* `Cause` — the problems themselves.
* `Cause.category`, `Cause.message`, `Cause.hints`.
-/

namespace TreeLang

/-- The class of a problem. -/
inductive Category where
  /-- Quotes and comments that are not closed, malformed escapes. -/
  | lexical
  /-- Missing delimiters, malformed statements, superfluous commas. -/
  | grammar
  /-- Definitions and keys that clash with others. -/
  | registration
  /-- The choice of an overload, the binding of arguments, the kinds of parameters. -/
  | expansion
  /-- Imports that cannot be had. -/
  | resolution
  /-- Faults of the compiler itself. -/
  | internal
deriving Repr, DecidableEq, Inhabited

/-- The name of a class. -/
def Category.text : Category → String
  | .lexical => "lexical"
  | .grammar => "syntax"
  | .registration => "registration"
  | .expansion => "macro"
  | .resolution => "resolution"
  | .internal => "internal"

/-- How deep the expansion of one invocation may nest. -/
def maxNesting : Nat := 128

/-- What is wrong. -/
inductive Cause where
  -- lexical
  | openComment
  | openQuote (quote : Char)
  /-- `shown` are the hexadecimal digits that follow the letter. -/
  | invalidEscape (letter : Char) (digits : Nat) (shown : String)
  -- grammar: values
  | redundantComma
  | unexpectedCloser (found : Token)
  | expectedStatementEnd (found : Token)
  | expectedValue (found : Token)
  | expectedOperand (found : Token)
  | openObject
  | openGroup (closer : TokenKind)
  | expectedKey (found : Token)
  | expectedKeyColon (key : String) (found : Token)
  | expectedSeparator (closer : TokenKind) (found : Token)
  -- grammar: macro statements
  | expectedMacroNameAfter (word : String) (found : Token)
  | expectedTemplateColon (signature : Signature) (found : Token)
  | openParameters (closer : TokenKind)
  | expectedParameterName (found : Token)
  | unknownParameterType (found : Token)
  | expectedParameterSeparator (closer : TokenKind) (parameter : String) (found : Token)
  -- grammar: operator statements
  | expectedSymbol (word : String) (found : Token)
  | expectedAs (symbol : String) (found : Token)
  | expectedProperty (found : Token)
  | invalidPriority (found : Token)
  | openPriority (found : Token)
  | expectedAlias (found : Token)
  | conflictingFixities (first second : Fixity)
  | conflictingAssociativities
  | unknownProperty (name : String)
  | conflictingPriorities (operator : String)
  | associativityWithoutBinary
  | accessorWithoutBinary
  | rightAssociativeAccessor
  -- grammar: other statements
  | expectedUndefineTarget (found : Token)
  | expectedMacroName (found : Token)
  | expectedEmptyShape (found : Token)
  | expectedImportPath (found : Token)
  -- registration
  | duplicateKey (key : String)
  | rejectedOperator (operator : String) (conflict : OperatorConflict)
  | importedConflict (conflict : OperatorConflict)
  /-- `header` is the definition that is already there. -/
  | duplicateMacro (header : String)
  | unknownOperator (word symbol : String)
  | unknownMacro (name : String)
  | nothingImported (path : String)
  -- expansion: definitions
  | duplicateParameter (name : String)
  | requiredAfterOptional (required optional : String)
  | unsatisfiableParameter (parameter : String) (signature : Signature) (declared : ShapeSet)
  | mismatchedDefault (parameter : String) (signature : Signature) (inferred : ShapeSet)
  -- expansion: invocations
  | mismatchedArgument (parameter : String) (signature : Signature) (inferred : ShapeSet)
      (found : Shape)
  | nameIsNoPrimitive (found : Shape)
  | unexpectedArguments (signature : Signature)
  | missingKey (key : String) (signature : Signature)
  | unusedKey (key : String) (signature : Signature)
  | tooFewArguments (signature : Signature) (required found : Nat)
  | unusedArguments (signature : Signature) (declared unused : Nat)
  | wrongArgumentShape (signature : Signature) (expected : String) (found : Shape)
  /-- `declared` are the definitions of that name. -/
  | wrongUsage (name : String) (declared : List String)
  /-- `candidates` are the definitions that fit equally well. -/
  | ambiguousInvocation (name : String) (candidates : List String)
  | nestingLimit (signature : Signature)
  -- resolution
  | unresolvedImport (path : String) (failure : ImportFailure)
  -- internal
  | lostReferences (lost total : Nat) (signature : Signature)
  | missingReplacement (path : Path) (signature : Signature)
  | unboundParameter (name : String)
  | fault (detail : String)
  /-- A problem stated by someone else, in words of their own. -/
  | stated (category : Category) (message : String)
deriving Repr, DecidableEq

namespace Cause

/-- How a cause is classified. -/
def category : Cause → Category
  | openComment | openQuote _ | invalidEscape _ _ _ => .lexical
  | duplicateKey _ | rejectedOperator _ _ | importedConflict _ | duplicateMacro _
  | unknownOperator _ _ | unknownMacro _ | nothingImported _ => .registration
  | duplicateParameter _ | requiredAfterOptional _ _ | unsatisfiableParameter _ _ _
  | mismatchedDefault _ _ _ | mismatchedArgument _ _ _ _ | nameIsNoPrimitive _
  | unexpectedArguments _ | missingKey _ _ | unusedKey _ _ | tooFewArguments _ _ _
  | unusedArguments _ _ _ | wrongArgumentShape _ _ _ | wrongUsage _ _ | ambiguousInvocation _ _
  | nestingLimit _ => .expansion
  | unresolvedImport _ _ => .resolution
  | lostReferences _ _ _ | missingReplacement _ _ | unboundParameter _ | fault _ => .internal
  | stated category _ => category
  | _ => .grammar

/-- A text in single quotes. -/
private def quoted (text : String) : String :=
  "'" ++ text ++ "'"

/-- **The wording of a cause.** -/
def message : Cause → String
  | openComment => "unterminated block comment"
  | openQuote _ => "unterminated quoted literal"
  | invalidEscape letter _ shown =>
    "invalid unicode escape " ++ quoted ("\\" ++ letter.toString ++ shown)
  | redundantComma => "redundant ','"
  | unexpectedCloser found => "unexpected " ++ found.text
  | expectedStatementEnd found =>
    "expected a line break or ',' after the statement, found " ++ found.text
  | expectedValue found => "expected a value, found " ++ found.text
  | expectedOperand found => "expected an operand, found " ++ found.text
  | openObject => "unclosed object; expected '\x7d'"
  | openGroup closer => "unclosed group; expected " ++ closer.text
  | expectedKey found => "expected a key, found " ++ found.text
  | expectedKeyColon key found =>
    "expected ':' after key " ++ quoted key ++ ", found " ++ found.text
  | expectedSeparator closer found =>
    "expected ',' or " ++ closer.text ++ ", found " ++ found.text
  | expectedMacroNameAfter word found =>
    "expected a macro name after " ++ quoted word ++ ", found " ++ found.text
  | expectedTemplateColon signature found =>
    "expected ':' before the template of " ++ signature.text ++ ", found " ++ found.text
  | openParameters closer => "expected " ++ closer.text ++ " to close the parameter list"
  | expectedParameterName found => "expected a parameter name, found " ++ found.text
  | unknownParameterType found => "unknown parameter type " ++ found.text
  | expectedParameterSeparator closer parameter found =>
    "expected ',' or " ++ closer.text ++ " after parameter " ++ quoted parameter ++ ", found " ++
      found.text
  | expectedSymbol word found =>
    "expected a symbol after " ++ quoted word ++ ", found " ++ found.text
  | expectedAs symbol found =>
    "expected 'as' after " ++ quoted symbol ++ ", found " ++ found.text
  | expectedProperty found => "expected an operator property, found " ++ found.text
  | invalidPriority found => "invalid priority " ++ found.text
  | openPriority found => "expected ')' after the priority, found " ++ found.text
  | expectedAlias found => "expected an alias after ':', found " ++ found.text
  | conflictingFixities first second =>
    "an operator cannot be both " ++ first.text ++ " and " ++ second.text
  | conflictingAssociativities => "an operator cannot be both left- and right-associative"
  | unknownProperty name => "unknown operator property " ++ quoted name
  | conflictingPriorities operator => "conflicting priorities for " ++ quoted operator
  | associativityWithoutBinary => "associativity only applies to binary operators"
  | accessorWithoutBinary => "an accessor must be a binary operator"
  | rightAssociativeAccessor => "an accessor cannot be right-associative"
  | expectedUndefineTarget found => "expected what to undefine, found " ++ found.text
  | expectedMacroName found => "expected a macro name, found " ++ found.text
  | expectedEmptyShape found => "expected an empty shape such as '[]', found " ++ found.text
  | expectedImportPath found => "expected an import path, found " ++ found.text
  | duplicateKey key => "duplicate key " ++ quoted key
  | rejectedOperator operator conflict =>
    "cannot register " ++ quoted operator ++ ": " ++ conflict.message
  | importedConflict conflict => conflict.message
  | duplicateMacro header => header ++ " is already defined"
  | unknownOperator word symbol => word ++ " " ++ quoted symbol ++ " is not defined"
  | unknownMacro name => "no macro named " ++ quoted name ++ " to undefine"
  | nothingImported path => "nothing imported from " ++ quoted path ++ " is defined"
  | duplicateParameter name => "duplicate parameter name " ++ quoted name
  | requiredAfterOptional required optional =>
    "required parameter " ++ quoted required ++ " follows optional parameter " ++ quoted optional
  | unsatisfiableParameter parameter signature declared =>
    "parameter " ++ quoted parameter ++ " of " ++ signature.text ++ " is declared " ++
      declared.text ++ " but used as a name, so no argument can satisfy it"
  | mismatchedDefault parameter signature inferred =>
    "default value of parameter " ++ quoted parameter ++ " of " ++ signature.text ++
      " does not match its inferred type " ++ inferred.text
  | mismatchedArgument parameter signature inferred found =>
    "argument " ++ quoted parameter ++ " of " ++ signature.text ++ " must be " ++ inferred.text ++
      ", found " ++ found.text
  | nameIsNoPrimitive found => "a name must be a primitive, found " ++ found.text
  | unexpectedArguments signature => signature.text ++ " takes no arguments"
  | missingKey key signature =>
    "missing required key " ++ quoted key ++ " for " ++ signature.text
  | unusedKey key signature => "key " ++ quoted key ++ " is not a parameter of " ++ signature.text
  | tooFewArguments signature required found =>
    signature.text ++ " expects at least " ++ toString required ++ " argument(s), found " ++
      toString found
  | unusedArguments signature declared unused =>
    signature.text ++ " takes " ++ toString declared ++ " argument(s); " ++ toString unused ++
      " extra ignored"
  | wrongArgumentShape signature expected found =>
    signature.text ++ " expects " ++ expected ++ " argument, found " ++ found.text
  | wrongUsage name _ => "wrong usage of " ++ quoted name
  | ambiguousInvocation name _ => "ambiguous invocation of " ++ quoted name
  | nestingLimit signature =>
    "expanding " ++ signature.text ++ " exceeds the maximum nesting depth of " ++
      toString maxNesting
  | unresolvedImport path _ => "cannot resolve import " ++ quoted path
  | lostReferences lost total signature =>
    toString lost ++ " of " ++ toString total ++
      " parameter references were lost while building " ++ signature.text
  | missingReplacement path signature =>
    "replacement path " ++ path.text ++ " is missing from the template of " ++ signature.text
  | unboundParameter name => "unbound parameter " ++ quoted name
  | fault detail => "internal compiler error: " ++ detail
  | stated _ message => message

/-- **The hints that come with a cause.** -/
def hints : Cause → List String
  | openComment => ["close the comment with '*/'"]
  | openQuote quote => ["close the literal with " ++ quote.toString]
  | invalidEscape letter digits _ =>
    ["'\\" ++ letter.toString ++ "' takes exactly " ++ toString digits ++
      " hexadecimal digits naming a code point"]
  | expectedStatementEnd _ => ["separate statements with ',' or put them on their own lines"]
  | unknownParameterType _ =>
    ["use any, nameable, named, unnamed, object, list, operation, primitive or an exact shape " ++
      "such as named-list"]
  | invalidPriority _ => ["priorities are finite decimal numbers"]
  | unknownProperty _ =>
    ["expected binary, prefix, postfix, left-associative, right-associative or accessor"]
  | expectedUndefineTarget _ =>
    ["use 'undef macro', 'undef fn', 'undef operator', 'undef keyword' or 'undef use'"]
  | duplicateKey _ => ["the first value is kept"]
  | requiredAfterOptional _ _ =>
    ["optional parameters of positional macros must form a trailing run"]
  | wrongUsage _ declared => declared.map ("declared as " ++ ·)
  | ambiguousInvocation _ candidates => candidates.map ("candidate: " ++ ·)
  | unresolvedImport _ failure => [failure.message]
  | _ => []

end Cause

end TreeLang
