import CodeFacts.Unused.Pattern
import CodeFacts.Unused.Policy

/-!
# What JavaScript and TypeScript share

The two grammars agree on functions, classes, patterns, declarations and member accesses. They
differ in how parameters and private fields are written.
-/

namespace CodeFacts.Unused.Ecma

/-- Functions of `Object` that enumerate or copy the fields of their argument. -/
def objectReflection : List String :=
  ["keys", "values", "entries", "assign", "getOwnPropertyNames"]

/-- The name of the receiving instance. -/
def selfNames : List String :=
  ["this"]

/-- The kinds of functions, methods and closures. -/
def functionKinds : List String :=
  ["function_declaration", "function_expression", "function", "generator_function_declaration",
    "generator_function", "arrow_function", "method_definition"]

/-- The kinds of classes. -/
def classKinds : List String :=
  ["class_declaration", "abstract_class_declaration", "class"]

/-- Functions, methods and closures have scopes; classes have fields. -/
def role (cursor : Cursor) : Role :=
  if functionKinds.contains cursor.kind then .function
  else if classKinds.contains cursor.kind then .classLike
  else .other

/-- Destructuring patterns: a pair binds its value and a default its left side. -/
def patternTable (kind : String) : PatternPart :=
  match kind with
  | "identifier" => .binding
  | "shorthand_property_identifier_pattern" => .binding
  | "object_pattern" => .namedChildren
  | "array_pattern" => .namedChildren
  | "rest_pattern" => .namedChildren
  | "pair_pattern" => .field "value"
  | "assignment_pattern" => .field "left"
  | "object_assignment_pattern" => .field "left"
  | _ => .nothing

/-- The identifiers bound by a destructuring pattern. -/
def patternNames (pattern : Cursor) : List Cursor :=
  patternBindings patternTable pattern

/-- The parameters of a function, patterns not taken apart: the single bare parameter of an
arrow function, or the named children of the parameter list. -/
def parameterNodes (function : Cursor) : List Cursor :=
  match function.childByField? "parameter" with
  | some single => [single]
  | none =>
    match function.childByField? "parameters" with
    | none => []
    | some list => list.namedChildren

/-- The names bound by the pattern under one field. -/
def namesUnder (cursor : Cursor) (field : String) : List Cursor :=
  match cursor.childByField? field with
  | none => []
  | some pattern => patternNames pattern

/-- Declarators bind names, and so does a `for` over a collection that writes `const`, `let` or
`var`; without such a word it assigns. -/
def localBindings (cursor : Cursor) : List Cursor :=
  if cursor.kind == "variable_declarator" then
    namesUnder cursor "name"
  else if cursor.kind == "for_in_statement" && (cursor.childByField? "kind").isSome then
    namesUnder cursor "left"
  else
    []

/-- Identifiers read names, also as shorthand properties. -/
def isUse (cursor : Cursor) : Bool :=
  cursor.kind == "identifier" || cursor.kind == "shorthand_property_identifier"

/-- The occurrence of a field in a member access, or in a check such as `#x in object`. -/
def fieldOccurrence? (cursor : Cursor) : Option Cursor :=
  if cursor.kind == "member_expression" then
    cursor.childByField? "property"
  else
    match cursor.parent? with
    | none => none
    | some above => if above.kind == "member_expression" then none else some cursor

/-- The property names that occur in methods. Initializers of fields are no methods and never
count. -/
def fieldUses (classNode : Cursor) : List Cursor :=
  match classNode.childByField? "body" with
  | none => []
  | some body =>
    (body.descendantsOfKind "method_definition").flatMap fun method =>
      (method.descendantsOfKinds ["member_expression", "private_property_identifier"]).filterMap
        fieldOccurrence?

/-- Whether a child is there and satisfies a test. -/
def fieldSatisfies (cursor : Cursor) (field : String) (test : Cursor → Bool) : Bool :=
  match cursor.childByField? field with
  | none => false
  | some child => test child

/-- A call such as `Object.keys(this)`. -/
def isObjectReflection (call : Cursor) : Bool :=
  fieldSatisfies call "function" fun callee =>
    callee.kind == "member_expression" &&
      fieldSatisfies callee "object" (fun object => object.text == "Object") &&
      fieldSatisfies callee "property" (fun property => objectReflection.contains property.text) &&
      fieldSatisfies call "arguments" fun arguments =>
        match arguments.namedChildren.head? with
        | none => false
        | some first => first.kind == "this"

/-- A computed access to the instance, any use of `Reflect`, or an enumeration of the
instance's fields. -/
def isDynamicAccess (cursor : Cursor) : Bool :=
  match cursor.kind with
  | "subscript_expression" => fieldSatisfies cursor "object" fun object => object.kind == "this"
  | "member_expression" => fieldSatisfies cursor "object" fun object => object.text == "Reflect"
  | "call_expression" => isObjectReflection cursor
  | _ => false

/-- Whether a class reaches fields without naming them. -/
def hasDynamicAccess (classNode : Cursor) : Bool :=
  classNode.descendants.any isDynamicAccess

end CodeFacts.Unused.Ecma
