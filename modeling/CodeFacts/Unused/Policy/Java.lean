import CodeFacts.Unused.Policy

/-!
# Unused symbols in Java

A field is private by its modifier. A class that looks up fields reflectively is not judged, and
`serialVersionUID`, which serialization reads, is never a candidate.
-/

namespace CodeFacts.Unused.Java

/-- Calls that look up or open fields by name. -/
def reflectiveCalls : List String :=
  ["getDeclaredField", "getDeclaredFields", "getField", "getFields", "setAccessible"]

/-- The members whose identifiers count as uses of fields. -/
def methodKinds : List String :=
  ["method_declaration", "constructor_declaration", "compact_constructor_declaration",
    "static_initializer"]

/-- Methods, constructors and lambdas have scopes; classes, enums and records have fields. -/
def role (cursor : Cursor) : Role :=
  match cursor.kind with
  | "method_declaration" => .function
  | "constructor_declaration" => .function
  | "compact_constructor_declaration" => .function
  | "lambda_expression" => .function
  | "class_declaration" => .classLike
  | "enum_declaration" => .classLike
  | "record_declaration" => .classLike
  | _ => .other

/-- The node that names a parameter. -/
def parameterName? (parameter : Cursor) : Option Cursor :=
  match parameter.kind with
  | "identifier" => some parameter
  | "formal_parameter" => parameter.childByField? "name"
  | "spread_parameter" =>
    (parameter.childrenOfKind "variable_declarator").head?.bind fun declarator =>
      declarator.childByField? "name"
  | _ => none

/-- The identifiers that declare a function's parameters, also the bare one of `x -> …`. -/
def parameters (function : Cursor) : List Cursor :=
  match function.childByField? "parameters" with
  | none => []
  | some list =>
    if list.kind == "identifier" then [list] else list.namedChildren.filterMap parameterName?

/-- The names of the variables that a declaration declares. -/
def declaratorNames (declaration : Cursor) : List Cursor :=
  (declaration.childrenOfKind "variable_declarator").filterMap fun declarator =>
    declarator.childByField? "name"

/-- The identifiers that a node binds as local variables. -/
def localBindings (cursor : Cursor) : List Cursor :=
  match cursor.kind with
  | "local_variable_declaration" => declaratorNames cursor
  | "enhanced_for_statement" => (cursor.childByField? "name").toList
  | _ => []

/-- Identifiers read names, except as the name of a called method or of an accessed field. -/
def isUse (cursor : Cursor) : Bool :=
  cursor.kind == "identifier" && !cursor.isFieldOfParent "method_invocation" "name" &&
    !cursor.isFieldOfParent "field_access" "field"

/-- The members of a class; those of an enum stand in a body of their own. -/
def members (classNode : Cursor) : List Cursor :=
  match classNode.childByField? "body" with
  | none => []
  | some body =>
    body.namedChildren.flatMap fun member =>
      if member.kind == "enum_body_declarations" then member.namedChildren else [member]

/-- Whether a declaration has the modifier `private`. -/
def isPrivate (declaration : Cursor) : Bool :=
  (declaration.childrenOfKind "modifiers").any fun modifiers =>
    modifiers.children.any fun modifier => modifier.text == "private"

/-- The identifiers that declare private fields. -/
def privateFields (classNode : Cursor) : List Cursor :=
  (((members classNode).filter fun member =>
    member.kind == "field_declaration" && isPrivate member).flatMap declaratorNames).filter
      fun name => name.text != "serialVersionUID"

/-- The identifiers in methods, constructors and initializers, those of nested classes included,
each node once. -/
def fieldUses (classNode : Cursor) : List Cursor :=
  match classNode.childByField? "body" with
  | none => []
  | some body =>
    distinct ((body.descendantsOfKinds methodKinds).flatMap fun method =>
      method.descendantsOfKind "identifier")

/-- Whether a class looks up fields reflectively. -/
def hasDynamicAccess (classNode : Cursor) : Bool :=
  (classNode.descendantsOfKind "method_invocation").any fun call =>
    match call.childByField? "name" with
    | none => false
    | some name => reflectiveCalls.contains name.text

/-- The rules for Java. -/
def policy : Policy where
  role
  selfNames := ["this"]
  parameters
  localBindings
  isUse
  privateFields
  fieldUses
  hasDynamicAccess
  fieldRule := .declarationVersusUse
  underscoreMarksPrivacy := false

end CodeFacts.Unused.Java
