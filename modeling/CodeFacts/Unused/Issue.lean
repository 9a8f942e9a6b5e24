import CodeFacts.Unused.Scope

/-!
# Reported symbols

An `Issue` is an unused symbol with the file in which it stands. The issues of one file are
ordered by line, then by name, then by kind.
-/

namespace CodeFacts.Unused

/-- The kinds of issues, in the order in which they are counted and sorted. -/
inductive IssueKind where
  | unusedParameter
  | unusedLocalVariable
  | unusedPrivateField
deriving DecidableEq, Repr, Inhabited

namespace IssueKind

/-- Every kind, in order. -/
def all : List IssueKind :=
  [unusedParameter, unusedLocalVariable, unusedPrivateField]

/-- The place of a kind in the order. -/
def rank : IssueKind → Nat
  | unusedParameter => 0
  | unusedLocalVariable => 1
  | unusedPrivateField => 2

/-- The identifier of a kind in reports. -/
def id : IssueKind → String
  | unusedParameter => "unused-parameter"
  | unusedLocalVariable => "unused-local-variable"
  | unusedPrivateField => "unused-private-field"

/-- What is unused, in words. -/
def describe : IssueKind → String
  | unusedParameter => "parameter"
  | unusedLocalVariable => "local variable"
  | unusedPrivateField => "private field"

end IssueKind

/-- The issue that an unused symbol of a kind gives. -/
def SymbolKind.issueKind : SymbolKind → IssueKind
  | .parameter => .unusedParameter
  | .localVariable => .unusedLocalVariable
  | .privateField => .unusedPrivateField

/-- An unused symbol at the line of its declaration. -/
structure Issue where
  kind : IssueKind
  file : String
  line : Nat
  symbolName : String
  className : Option String
deriving DecidableEq, Repr, Inhabited

namespace Issue

/-- The issue for an unused symbol of a file. -/
def ofSymbol (file : String) (symbol : Symbol) : Issue where
  kind := symbol.kind.issueKind
  file := file
  line := symbol.line
  symbolName := symbol.name
  className := symbol.className

/-- The issue in one sentence. -/
def message (issue : Issue) : String :=
  let subject := issue.kind.describe ++ " '" ++ issue.symbolName ++ "'"
  match issue.className with
  | some owner => subject ++ " of " ++ owner ++ " is never used"
  | none => subject ++ " is never used"

/-- Issues are ordered by line, then by name, then by kind. -/
def le (first second : Issue) : Bool :=
  decide (first.line < second.line) ||
    (first.line == second.line &&
      (decide (first.symbolName < second.symbolName) ||
        (first.symbolName == second.symbolName &&
          decide (first.kind.rank ≤ second.kind.rank))))

end Issue

/-- Removes every element that equals the one before it. -/
def dropRepeats : List Issue → List Issue
  | [] => []
  | [issue] => [issue]
  | first :: second :: rest =>
    if first = second then dropRepeats (second :: rest)
    else first :: dropRepeats (second :: rest)

/-- The issues of a file in their order, neighbouring repetitions removed. -/
def sortIssues (issues : List Issue) : List Issue :=
  dropRepeats (issues.mergeSort Issue.le)

end CodeFacts.Unused
