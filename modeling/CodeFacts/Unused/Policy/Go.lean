import CodeFacts.Text.Unicode
import CodeFacts.Unused.Policy

/-!
# Unused symbols in Go

Methods stand outside of the struct whose fields they use, so fields are judged by counting: a
name that occurs once in the whole file, in its own declaration, is unused. A struct with a tagged
field is not judged, and nothing is judged in a file that uses `reflect`.
-/

namespace CodeFacts.Unused.Go

/-- Names that start with a lower-case letter are not exported. -/
def isUnexported (name : String) : Bool :=
  match name.toList with
  | [] => false
  | first :: _ => Text.isLowercase first

/-- The struct that a type specification names. -/
def structType? (specification : Cursor) : Option Cursor :=
  match specification.childByField? "type" with
  | none => none
  | some type => if type.kind == "struct_type" then some type else none

/-- The field declarations of a struct. -/
def fieldDeclarations (specification : Cursor) : List Cursor :=
  match structType? specification with
  | none => []
  | some struct =>
    match (struct.childrenOfKind "field_declaration_list").head? with
    | none => []
    | some list => list.childrenOfKind "field_declaration"

/-- Functions, methods and literals have scopes; struct types have fields. -/
def role (cursor : Cursor) : Role :=
  match cursor.kind with
  | "function_declaration" => .function
  | "method_declaration" => .function
  | "func_literal" => .function
  | "type_spec" => if (structType? cursor).isSome then .classLike else .other
  | _ => .other

/-- The identifiers that declare a function's parameters. The receiver of a method stands outside
of the parameter list. -/
def parameters (function : Cursor) : List Cursor :=
  match function.childByField? "parameters" with
  | none => []
  | some list =>
    (list.namedChildren.filter fun parameter =>
      parameter.kind == "parameter_declaration" ||
        parameter.kind == "variadic_parameter_declaration").flatMap fun parameter =>
          parameter.childrenByField "name"

/-- The identifiers on the left side of a declaration. -/
def leftIdentifiers (cursor : Cursor) : List Cursor :=
  match cursor.childByField? "left" with
  | none => []
  | some list => list.namedChildren.filter fun part => part.kind == "identifier"

/-- The identifiers that a node binds as local variables. A range clause binds only with `:=`. -/
def localBindings (cursor : Cursor) : List Cursor :=
  match cursor.kind with
  | "short_var_declaration" => leftIdentifiers cursor
  | "var_spec" => cursor.childrenByField "name"
  | "range_clause" =>
    if (cursor.childrenOfKind ":=").isEmpty then [] else leftIdentifiers cursor
  | _ => []

/-- Identifiers read names. -/
def isUse (cursor : Cursor) : Bool :=
  cursor.kind == "identifier"

/-- The identifiers that declare fields which are not exported. -/
def privateFields (specification : Cursor) : List Cursor :=
  ((fieldDeclarations specification).flatMap fun declaration =>
    declaration.childrenByField "name").filter fun name => isUnexported name.text

/-- The name that stands as key of an element in a composite literal. -/
def elementKey? (element : Cursor) : Option Cursor :=
  let key? := (element.childByField? "key").or element.namedChildren.head?
  let inner? := key?.bind fun key =>
    if key.kind == "literal_element" then key.namedChildren.head? else some key
  inner?.bind fun key =>
    if key.kind == "identifier" || key.kind == "field_identifier" then some key else none

/-- Every occurrence of a field name in the file: declarations, selectors and keys of composite
literals, each node once. -/
def fieldUses (specification : Cursor) : List Cursor :=
  let root := specification.root
  distinct (root.descendantsOfKind "field_identifier" ++
    (root.descendantsOfKind "keyed_element").filterMap elementKey?)

/-- A selector on the package `reflect`. -/
def isReflection (selector : Cursor) : Bool :=
  match selector.childByField? "operand" with
  | none => false
  | some operand => operand.text == "reflect"

/-- Whether fields are reached without naming them: tags drive encoders, and `reflect` reaches
anything. -/
def hasDynamicAccess (specification : Cursor) : Bool :=
  (fieldDeclarations specification).any (fun declaration =>
      (declaration.childByField? "tag").isSome) ||
    (specification.root.descendantsOfKind "selector_expression").any isReflection

/-- The rules for Go. -/
def policy : Policy where
  role
  selfNames := []
  parameters
  localBindings
  isUse
  privateFields
  fieldUses
  hasDynamicAccess
  fieldRule := .occurrenceCount
  underscoreMarksPrivacy := false

end CodeFacts.Unused.Go
