import TreeLang.Json.Reader
import TreeLang.Options
import TreeLang.Yaml.Node

/-!
# Options from a file

The options of a compilation are written as a mapping with a key for each option, in JSON or in
YAML.  Options that are not mentioned keep their defaults, and keys that are no options are passed
over.  A value of the wrong kind, or an option that is given twice, makes the whole file invalid.

* `Setting` — what a value says, whatever the format it is written in.
* `CompileOptions.ofJson?`, `CompileOptions.ofYaml?` — options from a value.
* `CompileOptions.ofJsonText?`, `CompileOptions.ofYamlText?` — options from the text of a file.
* `CompileOptions.toJson` — the six options with their values.
-/

namespace TreeLang

namespace EscapePolicy

/-- All policies. -/
def all : List EscapePolicy := [error, warn, ignore]

/-- The name of a policy. -/
def text : EscapePolicy → String
  | error => "error"
  | warn => "warn"
  | ignore => "ignore"

/-- The policy of a name. -/
def ofText? (name : String) : Option EscapePolicy :=
  all.find? fun policy => policy.text = name

/-- A policy as JSON: its name, or an object with its name as the only member and nothing in it. -/
def ofJson? : Json → Option EscapePolicy
  | .string name => ofText? name
  | .object [(name, .null)] => ofText? name
  | _ => none

/-- A policy as YAML: its name in any style, or its name as the tag of nothing. -/
def ofYaml? : Yaml.Node → Option EscapePolicy
  | .scalar text style tag =>
    match tag.bind fun tag => if tag.startsWith "!" then some (tag.drop 1).toString else none with
    | some name =>
      if style = .plain ∧ ["", "~", "null", "Null", "NULL"].contains text then ofText? name
      else none
    | none => ofText? text
  | _ => none

end EscapePolicy

/-- **What a value says**, read as a truth value and read as a policy. -/
structure Setting where
  bool? : Option Bool
  policy? : Option EscapePolicy
deriving Repr, DecidableEq

namespace Setting

/-- What a JSON value says. -/
def ofJson (value : Json) : Setting where
  bool? := match value with
    | .bool value => some value
    | _ => none
  policy? := EscapePolicy.ofJson? value

/-- A truth value as YAML: a plain scalar, or a literal block that is tagged as one. -/
def boolOfYaml? : Yaml.Node → Option Bool
  | .scalar text style tag =>
    if style = .plain ∨ (style = .literal ∧ tag = some "tag:yaml.org,2002:bool") then
      if ["true", "True", "TRUE"].contains text then some true
      else if ["false", "False", "FALSE"].contains text then some false
      else none
    else none
  | _ => none

/-- What a YAML node says. -/
def ofYaml (node : Yaml.Node) : Setting where
  bool? := boolOfYaml? node
  policy? := EscapePolicy.ofYaml? node

end Setting

namespace CompileOptions

/-- The names of the options, in order. -/
def names : List String :=
  ["collapse-unary-operation", "allow-duplicate-properties", "allow-invalid-operators",
    "copy-constant-macros", "invalid-unicode-escape", "default-operators"]

/-- The options with the one of a name set; a name that is no option changes nothing. -/
def set? (options : CompileOptions) (name : String) (setting : Setting) : Option CompileOptions :=
  if name = "collapse-unary-operation" then
    setting.bool?.map fun value => { options with collapseUnaryOperation := value }
  else if name = "allow-duplicate-properties" then
    setting.bool?.map fun value => { options with allowDuplicateProperties := value }
  else if name = "allow-invalid-operators" then
    setting.bool?.map fun value => { options with allowInvalidOperators := value }
  else if name = "copy-constant-macros" then
    setting.bool?.map fun value => { options with copyConstantMacros := value }
  else if name = "invalid-unicode-escape" then
    setting.policy?.map fun value => { options with invalidUnicodeEscape := value }
  else if name = "default-operators" then
    setting.bool?.map fun value => { options with defaultOperators := value }
  else some options

/-- The options with several set, each at most once. -/
def setAll? (settings : List (String × Setting)) : Option CompileOptions :=
  let given := (settings.map Prod.fst).filter names.contains
  if given.eraseDups = given then
    settings.foldlM (fun options (name, setting) => options.set? name setting) {}
  else none

/-- **Options from a JSON value**: an object by names, or an array of the first options in
order. -/
def ofJson? : Json → Option CompileOptions
  | .object members => setAll? (members.map fun (name, value) => (name, Setting.ofJson value))
  | .array elements =>
    if elements.length ≤ names.length then setAll? (names.zip (elements.map Setting.ofJson))
    else none
  | _ => none

/-- Options from a JSON file. -/
def ofJsonText? (text : String) : Option CompileOptions :=
  (Json.ofText? names.contains text).bind ofJson?

/-- **Options from a YAML node**: a mapping with scalars for keys, or nothing at all. -/
def ofYaml? : Yaml.Node → Option CompileOptions
  | .mapping entries _ => do
    let settings ← entries.mapM fun (key, value) =>
      match key with
      | .scalar name _ _ => some (name, Setting.ofYaml value)
      | _ => none
    setAll? settings
  | .scalar "" .plain _ => some {}
  | _ => none

/-- Options from a YAML file, which holds one document at most. -/
def ofYamlText? (text : String) : Option CompileOptions := do
  match ← Yaml.documents? text with
  | [] => some {}
  | [root] => ofYaml? root
  | _ => none

/-- **The options** by their names. -/
def toJson (options : CompileOptions) : Json :=
  .object
    [("collapse-unary-operation", .bool options.collapseUnaryOperation),
     ("allow-duplicate-properties", .bool options.allowDuplicateProperties),
     ("allow-invalid-operators", .bool options.allowInvalidOperators),
     ("copy-constant-macros", .bool options.copyConstantMacros),
     ("invalid-unicode-escape", .string options.invalidUnicodeEscape.text),
     ("default-operators", .bool options.defaultOperators)]

end CompileOptions

end TreeLang
