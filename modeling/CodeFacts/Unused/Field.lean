import CodeFacts.Unused.Scope

/-!
# Private fields of classes

A private field is unused when nothing but its declaration names it. A class that reaches fields
without naming them has no unused fields at all.
-/

namespace CodeFacts.Unused

/-- The declarations of a list, each name once, with its first declaration. -/
def firstDeclarations : List Cursor → List Cursor
  | [] => []
  | field :: rest =>
    field :: (firstDeclarations rest).filter fun other => other.text != field.text

namespace Policy

/-- Whether a field is unused by the rule of the language, given the first declarations of the
class's fields and the nodes that count as occurrences. -/
def fieldIsUnused (policy : Policy) (fields occurrences : List Cursor) (field : Cursor) : Bool :=
  match policy.fieldRule with
  | .declarationVersusUse =>
    let sites := fields.map Cursor.address
    !occurrences.any fun cursor => !sites.contains cursor.address && cursor.text == field.text
  | .occurrenceCount =>
    decide ((occurrences.filter fun cursor => cursor.text == field.text).length ≤ 1)

/-- The private fields of a class that are never used and whose name does not exempt them. -/
def unusedPrivateFields (policy : Policy) (classNode : Cursor) : List Symbol :=
  if policy.hasDynamicAccess classNode then
    []
  else
    let fields := firstDeclarations (policy.privateFields classNode)
    let occurrences := policy.fieldUses classNode
    let unused := fields.filter fun field =>
      policy.fieldIsUnused fields occurrences field && !policy.exemptsField field.text
    unused.map fun field => ⟨field.text, .privateField, field.line, className? classNode⟩

end Policy

end CodeFacts.Unused
