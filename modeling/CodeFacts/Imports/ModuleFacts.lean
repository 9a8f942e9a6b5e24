import CodeFacts.Language
import CodeFacts.Tree.Walk

/-!
# What a module imports and exports

Imports are the string sources of `import` and of `export … from`, the string arguments of
`require`, and the first argument of a dynamic `import(…)` if it is a string. They are listed in
the order of the text, each specifier once. Exports are the names that the export statements of
the top level declare, list or re-export, and `default`.
-/

namespace CodeFacts.Imports

/-- A module specifier as it is written, with its 1-based line. -/
structure ImportSpec where
  specifier : String
  line : Nat
deriving DecidableEq, Repr, Inhabited

/-- What a file says about other modules. -/
structure ModuleFacts where
  imports : List ImportSpec
  exports : List String
deriving DecidableEq, Repr, Inhabited

/-- The quotes that surround a specifier. -/
def isQuote (char : Char) : Bool :=
  char == '"' || char == '\'' || char == '\x60'

/-- A literal without the quotes at its ends. -/
def unquote (literal : String) : String :=
  String.ofList ((literal.toList.dropWhile isQuote).reverse.dropWhile isQuote).reverse

/-- Whether a node is a string literal that the grammar names. -/
def isStringNode (cursor : Cursor) : Bool :=
  cursor.kind == "string" && cursor.node.named

/-- Whether a call calls `require`. -/
def isRequireCall (call : Cursor) : Bool :=
  (call.childrenByField "function").any fun callee =>
    callee.kind == "identifier" && callee.node.named && callee.text == "require"

/-- The literals that a statement or a call of `require` imports. -/
def staticSources (cursor : Cursor) : List Cursor :=
  if cursor.kind == "import_statement" || cursor.kind == "export_statement" then
    (cursor.childrenByField "source").filter isStringNode
  else if cursor.kind == "call_expression" && isRequireCall cursor then
    ((cursor.childrenByField "arguments").filter fun list => list.kind == "arguments").flatMap
      fun list => list.children.filter isStringNode
  else
    []

/-- The literal that a dynamic import imports. -/
def dynamicSource? (call : Cursor) : Option Cursor :=
  match call.childByField? "function" with
  | none => none
  | some callee =>
    if callee.kind == "import" then
      match call.childByField? "arguments" with
      | none => none
      | some list =>
        match list.namedChildren.head? with
        | none => none
        | some first => if first.kind == "string" then some first else none
    else
      none

/-- The literals of a tree that name modules: those of statements and `require` calls that are
not empty, then those of dynamic imports. -/
def importSources (root : Cursor) : List Cursor :=
  (root.descendants.flatMap staticSources).filter (fun source => unquote source.text != "") ++
    (root.descendantsOfKind "call_expression").filterMap dynamicSource?

/-- The import that a literal stands for. -/
def ImportSpec.ofSource (source : Cursor) : ImportSpec :=
  ⟨unquote source.text, source.line⟩

/-- The imports of a list, each specifier once, with its first occurrence. -/
def firstOfEachSpecifier : List ImportSpec → List ImportSpec
  | [] => []
  | spec :: rest =>
    spec :: (firstOfEachSpecifier rest).filter fun other => other.specifier != spec.specifier

/-- The imports of a tree in the order of the text. -/
def importsOf (root : Cursor) : List ImportSpec :=
  let sources := (importSources root).mergeSort fun first second =>
    decide (first.span.startByte ≤ second.span.startByte)
  firstOfEachSpecifier (sources.map ImportSpec.ofSource)

/-- The names that an exported declaration declares. -/
def declaredNames (declaration : Cursor) : List String :=
  if declaration.kind == "lexical_declaration" || declaration.kind == "variable_declaration" then
    (((declaration.childrenOfKind "variable_declarator").filterMap fun declarator =>
      declarator.childByField? "name").filter fun name => name.kind == "identifier").map Cursor.text
  else
    ((declaration.childByField? "name").map Cursor.text).toList

/-- The name under which an export clause exports something: its alias, or its own name. -/
def exportedName? (specifier : Cursor) : Option String :=
  ((specifier.childByField? "alias").or (specifier.childByField? "name")).map fun name =>
    unquote name.text

/-- The names that an export statement exports. -/
def statementExports (statement : Cursor) : List String :=
  if !(statement.childrenOfKind "default").isEmpty then
    ["default"]
  else
    let declared := match statement.childByField? "declaration" with
      | none => []
      | some declaration => declaredNames declaration
    let listed := (statement.childrenOfKind "export_clause").flatMap fun clause =>
      (clause.childrenOfKind "export_specifier").filterMap exportedName?
    declared ++ listed

/-- The exported names of a tree in the order of first occurrence. -/
def exportsOf (root : Cursor) : List String :=
  ((((root.childrenOfKind "export_statement").flatMap statementExports).filter
    fun name => name != "")).eraseDups

/-- What a file in a language says about other modules; only ECMAScript files say anything. -/
def moduleFacts (language : Language) (tree : Node) : ModuleFacts :=
  if language.isEcmaScript then
    let root := Cursor.ofRoot tree
    ⟨importsOf root, exportsOf root⟩
  else
    ⟨[], []⟩

end CodeFacts.Imports
