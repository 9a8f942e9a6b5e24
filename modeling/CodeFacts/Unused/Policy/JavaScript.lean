import CodeFacts.Unused.Policy.Ecma

/-!
# Unused symbols in JavaScript

A field is private by its `#`.
-/

namespace CodeFacts.Unused.JavaScript

/-- The identifiers that declare a function's parameters. -/
def parameters (function : Cursor) : List Cursor :=
  (Ecma.parameterNodes function).flatMap Ecma.patternNames

/-- The private names among the fields of a class body. -/
def privateFields (classNode : Cursor) : List Cursor :=
  match classNode.childByField? "body" with
  | none => []
  | some body =>
    ((body.childrenOfKind "field_definition").filterMap fun field =>
      field.childByField? "property").filter fun name => name.kind == "private_property_identifier"

/-- The rules for JavaScript. -/
def policy : Policy where
  role := Ecma.role
  selfNames := Ecma.selfNames
  parameters
  localBindings := Ecma.localBindings
  isUse := Ecma.isUse
  privateFields
  fieldUses := Ecma.fieldUses
  hasDynamicAccess := Ecma.hasDynamicAccess
  fieldRule := .declarationVersusUse
  underscoreMarksPrivacy := false

end CodeFacts.Unused.JavaScript
