import CodeFacts.Unused.Pattern
import CodeFacts.Unused.Policy

/-!
# Unused symbols in Python

Fields are private by a leading underscore, dunder names apart. They are declared by assignments
in the class body and by assignments to `self` or `cls` in methods. A class that calls `getattr`
and the like, or touches `__dict__`, is not judged.
-/

namespace CodeFacts.Unused.Python

/-- Built-in functions that reach an attribute by a computed name. -/
def dynamicAccessors : List String :=
  ["getattr", "setattr", "delattr", "hasattr", "vars"]

/-- The conventional names of the receiving instance or class. -/
def selfNames : List String :=
  ["self", "cls"]

/-- Names such as `_x` and `__x` are private; those with two underscores at both ends are not. -/
def isPrivate (name : String) : Bool :=
  let chars := name.toList
  "_".toList.isPrefixOf chars &&
    !("__".toList.isPrefixOf chars && "__".toList.isSuffixOf chars)

/-- Assignment targets: lists, tuples and splats bind all their parts. -/
def targetTable (kind : String) : PatternPart :=
  if kind == "identifier" then .binding
  else if ["pattern_list", "tuple_pattern", "list_pattern", "list_splat_pattern"].contains kind then
    .namedChildren
  else .nothing

/-- The identifiers bound by an assignment target. -/
def targets (pattern : Cursor) : List Cursor :=
  patternBindings targetTable pattern

/-- Functions and lambdas have scopes; classes have fields. -/
def role (cursor : Cursor) : Role :=
  match cursor.kind with
  | "function_definition" => .function
  | "lambda" => .function
  | "class_definition" => .classLike
  | _ => .other

/-- The name below a splat such as `*args`, and any other node as it is. -/
def unsplat? (cursor : Cursor) : Option Cursor :=
  if cursor.kind == "list_splat_pattern" || cursor.kind == "dictionary_splat_pattern" then
    cursor.namedChildren.head?
  else
    some cursor

/-- The node that should name a parameter. -/
def parameterName? (parameter : Cursor) : Option Cursor :=
  match parameter.kind with
  | "identifier" => some parameter
  | "default_parameter" => parameter.childByField? "name"
  | "typed_default_parameter" => parameter.childByField? "name"
  | "list_splat_pattern" => parameter.namedChildren.head?
  | "dictionary_splat_pattern" => parameter.namedChildren.head?
  | "typed_parameter" => parameter.namedChildren.head?.bind unsplat?
  | _ => none

/-- The identifiers that declare a function's parameters. -/
def parameters (function : Cursor) : List Cursor :=
  match function.childByField? "parameters" with
  | none => []
  | some list =>
    (list.namedChildren.filterMap parameterName?).filter fun name => name.kind == "identifier"

/-- The target that a node assigns to, if it assigns. -/
def bindingTarget? (cursor : Cursor) : Option Cursor :=
  match cursor.kind with
  | "assignment" => cursor.childByField? "left"
  | "for_statement" => cursor.childByField? "left"
  | "named_expression" => cursor.childByField? "name"
  | "as_pattern" => (cursor.childByField? "alias").bind fun aliased => aliased.namedChildren.head?
  | _ => none

/-- The identifiers that a node binds as local variables. -/
def localBindings (cursor : Cursor) : List Cursor :=
  match bindingTarget? cursor with
  | none => []
  | some target => targets target

/-- Identifiers read names, except after a dot and as the keyword of an argument. -/
def isUse (cursor : Cursor) : Bool :=
  cursor.kind == "identifier" && !cursor.isFieldOfParent "attribute" "attribute" &&
    !cursor.isFieldOfParent "keyword_argument" "name"

/-- Every function definition in the body of a class. -/
def methods (classNode : Cursor) : List Cursor :=
  match classNode.childByField? "body" with
  | none => []
  | some body => body.descendantsOfKind "function_definition"

/-- The identifiers that statements of a class body assign to. -/
def classAttributes (body : Cursor) : List Cursor :=
  body.namedChildren.flatMap fun statement =>
    if statement.kind == "expression_statement" then
      statement.namedChildren.flatMap fun assignment =>
        if assignment.kind == "assignment" then
          match assignment.childByField? "left" with
          | none => []
          | some left => targets left
        else []
    else []

/-- The attributes among the targets of an assignment. -/
def assignedAttributes (assignment : Cursor) : List Cursor :=
  match assignment.childByField? "left" with
  | none => []
  | some left =>
    if left.kind == "attribute" then [left]
    else left.namedChildren.filter fun part => part.kind == "attribute"

/-- The name of an attribute that is reached through the receiving instance. -/
def selfAttribute? (access : Cursor) : Option Cursor :=
  match access.childByField? "object" with
  | none => none
  | some object =>
    if selfNames.contains object.text then access.childByField? "attribute" else none

/-- The names that a method assigns to through the receiving instance. -/
def instanceAttributes (method : Cursor) : List Cursor :=
  (method.descendantsOfKind "assignment").flatMap fun assignment =>
    (assignedAttributes assignment).filterMap selfAttribute?

/-- The identifiers that declare private fields: class attributes first, then what methods
assign to the instance. -/
def privateFields (classNode : Cursor) : List Cursor :=
  match classNode.childByField? "body" with
  | none => []
  | some body =>
    (classAttributes body ++ (methods classNode).flatMap instanceAttributes).filter fun name =>
      isPrivate name.text

/-- The attribute names that occur in methods. -/
def fieldUses (classNode : Cursor) : List Cursor :=
  (methods classNode).flatMap fun method =>
    (method.descendantsOfKind "attribute").filterMap fun access =>
      access.childByField? "attribute"

/-- A call of a built-in function that reaches an attribute by a computed name. -/
def isDynamicCall (call : Cursor) : Bool :=
  match call.childByField? "function" with
  | none => false
  | some callee => callee.kind == "identifier" && dynamicAccessors.contains callee.text

/-- An access to the dictionary of an instance. -/
def isDictAccess (access : Cursor) : Bool :=
  match access.childByField? "attribute" with
  | none => false
  | some name => name.text == "__dict__"

/-- Whether a class reaches attributes without naming them. -/
def hasDynamicAccess (classNode : Cursor) : Bool :=
  (classNode.descendantsOfKind "call").any isDynamicCall ||
    (classNode.descendantsOfKind "attribute").any isDictAccess

/-- The rules for Python. -/
def policy : Policy where
  role
  selfNames
  parameters
  localBindings
  isUse
  privateFields
  fieldUses
  hasDynamicAccess
  fieldRule := .declarationVersusUse
  underscoreMarksPrivacy := true

end CodeFacts.Unused.Python
