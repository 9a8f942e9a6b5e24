import CodeFacts.Unused.Policy.Ecma

/-!
# Unused symbols in TypeScript

A field is private by its `#` or by the modifier `private`. A constructor parameter with an
accessibility modifier is a field and no parameter.
-/

namespace CodeFacts.Unused.TypeScript

/-- The accessibility modifier of a field or parameter. -/
def accessibility? (cursor : Cursor) : Option String :=
  (cursor.childrenOfKind "accessibility_modifier").head?.map Cursor.text

/-- The pattern of a parameter; a parameter with an accessibility modifier has none, since it
declares a field. -/
def parameterPattern? (parameter : Cursor) : Option Cursor :=
  if parameter.kind == "required_parameter" || parameter.kind == "optional_parameter" then
    if (accessibility? parameter).isSome then none else parameter.childByField? "pattern"
  else
    some parameter

/-- The identifiers that declare a function's parameters. -/
def parameters (function : Cursor) : List Cursor :=
  ((Ecma.parameterNodes function).filterMap parameterPattern?).flatMap Ecma.patternNames

/-- The name of a field declaration that is private. -/
def privateFieldName? (field : Cursor) : Option Cursor :=
  match field.childByField? "name" with
  | none => none
  | some name =>
    if name.kind == "private_property_identifier" || accessibility? field == some "private" then
      some name
    else
      none

/-- Whether a method is the constructor of its class. -/
def isConstructor (method : Cursor) : Bool :=
  match method.childByField? "name" with
  | none => false
  | some name => name.text == "constructor"

/-- The identifier of a constructor parameter that declares a private field. -/
def privateParameterName? (parameter : Cursor) : Option Cursor :=
  if accessibility? parameter == some "private" then
    match parameter.childByField? "pattern" with
    | none => none
    | some pattern => if pattern.kind == "identifier" then some pattern else none
  else
    none

/-- The identifiers that declare private fields, in the order of the source. -/
def privateFields (classNode : Cursor) : List Cursor :=
  match classNode.childByField? "body" with
  | none => []
  | some body =>
    let fields := (body.childrenOfKind "public_field_definition").filterMap privateFieldName?
    let constructors := (body.childrenOfKind "method_definition").filter isConstructor
    let parameters := (constructors.flatMap Ecma.parameterNodes).filterMap privateParameterName?
    (fields ++ parameters).mergeSort fun first second =>
      decide (first.span.startByte ≤ second.span.startByte)

/-- The rules for TypeScript, with or without embedded markup. -/
def policy : Policy where
  role := Ecma.role
  selfNames := Ecma.selfNames
  parameters
  localBindings := Ecma.localBindings
  isUse := Ecma.isUse
  privateFields
  fieldUses := Ecma.fieldUses
  hasDynamicAccess := Ecma.hasDynamicAccess
  fieldRule := .declarationVersusUse
  underscoreMarksPrivacy := false

end CodeFacts.Unused.TypeScript
