import CodeFacts.Calls.Docstring
import CodeFacts.Tree.Walk

/-!
# Declarations in Python sources

The functions, methods and classes of a file in document order. What stands in a class is named
after it, `Class.method`; a function in a function is a plain function again.
-/

namespace CodeFacts.Calls

/-- What a declaration declares. -/
inductive DeclarationKind where
  | function
  | method
  | classDefinition
deriving DecidableEq, Repr, Inhabited

/-- The identifier of a kind in reports. -/
def DeclarationKind.id : DeclarationKind → String
  | function => "function"
  | method => "method"
  | classDefinition => "class"

/-- A parameter with the texts of its type and of its default. -/
structure Parameter where
  name : String
  typeText : Option String
  defaultText : Option String
deriving DecidableEq, Repr, Inhabited

/-- A parameter as it stands in a signature: blanks surround the equals sign after a type
only. -/
def Parameter.render (parameter : Parameter) : String :=
  let typed := match parameter.typeText with
    | none => parameter.name
    | some text => parameter.name ++ ": " ++ text
  match parameter.defaultText with
  | none => typed
  | some text => typed ++ (if parameter.typeText.isSome then " = " else "=") ++ text

/-- A function, method or class. -/
structure Declaration where
  name : String
  /-- The name after that of the class around it. -/
  qualifiedName : String
  kind : DeclarationKind
  /-- The span of the statement, decorators excluded. -/
  span : Span
  parameters : List Parameter
  returnType : Option String
  docstring : Option String
  isAsync : Bool
  /-- The decorator expressions in the order of the text. -/
  decorators : List String
  /-- The qualified name of the class around the declaration. -/
  className : Option String
deriving DecidableEq, Repr, Inhabited

namespace Declaration

/-- The line on which a declaration starts. -/
def startLine (declaration : Declaration) : Nat :=
  declaration.span.startLine

/-- The line on which a declaration ends. -/
def endLine (declaration : Declaration) : Nat :=
  declaration.span.endLine

/-- Whether a line is the first line of a declaration or lies within it. -/
def coversLine (declaration : Declaration) (line : Nat) : Bool :=
  declaration.startLine == line || declaration.span.containsLine line

/-- The declaration in one line. -/
def signature (declaration : Declaration) : String :=
  match declaration.kind with
  | .classDefinition => "class " ++ declaration.name
  | _ =>
    let keyword := if declaration.isAsync then "async def" else "def"
    let parameters := ", ".intercalate (declaration.parameters.map Parameter.render)
    let result := match declaration.returnType with
      | none => ""
      | some text => " -> " ++ text
    keyword ++ " " ++ declaration.name ++ "(" ++ parameters ++ ")" ++ result

end Declaration

/-- A name after that of the class around it. -/
def qualify (className : Option String) (name : String) : String :=
  match className with
  | none => name
  | some owner => owner ++ "." ++ name

/-- The expression of a decorator. -/
def decoratorText (decorator : Cursor) : String :=
  match decorator.namedChildren.head? with
  | some expression => expression.text
  | none => String.ofList (decorator.text.toList.dropWhile (· == '@'))

/-- The expressions of the decorators right before a definition, in the order of the text. -/
def decorators (definition : Cursor) : List String :=
  ((definition.precedingNamedSiblings.takeWhile fun sibling =>
    sibling.kind == "decorator").map decoratorText).reverse

/-- The parameter that a node of a parameter list declares. -/
def parameter? (cursor : Cursor) : Option Parameter :=
  let textOf (field : String) : Option String := (cursor.childByField? field).map Cursor.text
  match cursor.kind with
  | "identifier" => some ⟨cursor.text, none, none⟩
  | "list_splat_pattern" => some ⟨cursor.text, none, none⟩
  | "dictionary_splat_pattern" => some ⟨cursor.text, none, none⟩
  | "typed_parameter" =>
    cursor.namedChildren.head?.map fun name => ⟨name.text, textOf "type", none⟩
  | "default_parameter" => (textOf "name").map fun name => ⟨name, textOf "type", textOf "value"⟩
  | "typed_default_parameter" =>
    (textOf "name").map fun name => ⟨name, textOf "type", textOf "value"⟩
  | _ => none

/-- The parameters of a function definition. -/
def parametersOf (definition : Cursor) : List Parameter :=
  match definition.childByField? "parameters" with
  | none => []
  | some list => list.namedChildren.filterMap parameter?

/-- The class that a definition declares inside of another; a definition without a name declares
nothing. -/
def classDeclaration? (definition : Cursor) (className : Option String) : Option Declaration :=
  (definition.childByField? "name").map fun name =>
    { name := name.text
      qualifiedName := qualify className name.text
      kind := .classDefinition
      span := definition.span
      parameters := []
      returnType := none
      docstring := (definition.childByField? "body").bind docstring?
      isAsync := false
      decorators := decorators definition
      className }

/-- The function or method that a definition declares inside of a class; a definition without a
name declares nothing. -/
def functionDeclaration? (definition : Cursor) (className : Option String) : Option Declaration :=
  (definition.childByField? "name").map fun name =>
    { name := name.text
      qualifiedName := qualify className name.text
      kind := if className.isSome then .method else .function
      span := definition.span
      parameters := parametersOf definition
      returnType := (definition.childByField? "return_type").map Cursor.text
      docstring := (definition.childByField? "body").bind docstring?
      isAsync := !(definition.childrenOfKind "async").isEmpty
      decorators := decorators definition
      className }

/-- What a node declares inside of a class. -/
def declaration? (cursor : Cursor) (className : Option String) : Option Declaration :=
  if cursor.kind == "function_definition" then functionDeclaration? cursor className
  else if cursor.kind == "class_definition" then classDeclaration? cursor className
  else none

/-- The class around the children of a node, given the class around the node. -/
def innerClass (cursor : Cursor) (className : Option String) : Option String :=
  if cursor.kind == "function_definition" then none
  else if cursor.kind == "class_definition" then
    match classDeclaration? cursor className with
    | some declaration => some declaration.qualifiedName
    | none => className
  else className

/-- The declarations of pending nodes and of all below them, each node given with the class
around it. -/
def declarationsPending : List (Cursor × Option String) → List Declaration
  | [] => []
  | (cursor, className) :: rest =>
    (declaration? cursor className).toList ++
      declarationsPending
        ((cursor.children.map fun child => (child, innerClass cursor className)) ++ rest)
termination_by pending => Cursor.pendingSize (pending.map Prod.fst)
decreasing_by
  simpa [Function.comp_def] using
    Cursor.pendingSize_children_append cursor (rest.map Prod.fst)

/-- The functions, methods and classes of a tree, in document order. -/
def declarationsOf (tree : Node) : List Declaration :=
  declarationsPending [(Cursor.ofRoot tree, none)]

end CodeFacts.Calls
