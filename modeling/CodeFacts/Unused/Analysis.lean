import CodeFacts.Language
import CodeFacts.Unused.Field
import CodeFacts.Unused.Issue
import CodeFacts.Unused.Policy.Go
import CodeFacts.Unused.Policy.Java
import CodeFacts.Unused.Policy.JavaScript
import CodeFacts.Unused.Policy.Python
import CodeFacts.Unused.Policy.TypeScript

/-!
# Unused symbols of a file

Every function of a tree is checked for unused parameters and local variables, every class for
unused private fields, and the kinds that the options leave out are not reported.
-/

namespace CodeFacts.Unused

/-- Which kinds of issues are reported. -/
structure Options where
  unusedParameters : Bool := true
  unusedLocals : Bool := true
  unusedPrivateFields : Bool := true
deriving DecidableEq, Repr, Inhabited

/-- Whether the options report a kind of symbols that functions declare. -/
def Options.reportsName (options : Options) : SymbolKind → Bool
  | .parameter => options.unusedParameters
  | .localVariable => options.unusedLocals
  | .privateField => false

/-- The rules of a language. -/
def policyFor : Language → Policy
  | .python => Python.policy
  | .javaScript => JavaScript.policy
  | .typeScript => TypeScript.policy
  | .tsx => TypeScript.policy
  | .go => Go.policy
  | .java => Java.policy

namespace Policy

/-- The nodes of a tree with a given role, in document order. -/
def nodesWithRole (policy : Policy) (role : Role) (root : Node) : List Cursor :=
  (Cursor.ofRoot root).descendants.filter fun cursor => policy.role cursor == role

/-- The unused parameters and local variables of a function. -/
def unusedNames (policy : Policy) (function : Cursor) : List Symbol :=
  match policy.scope? function with
  | none => []
  | some scope => scope.unused

/-- The unused parameters and local variables of a tree that the options report. -/
def reportedNames (policy : Policy) (options : Options) (root : Node) : List Symbol :=
  if options.unusedParameters || options.unusedLocals then
    (policy.nodesWithRole .function root).flatMap fun function =>
      (policy.unusedNames function).filter fun symbol => options.reportsName symbol.kind
  else []

/-- The unused private fields of a tree that the options report. -/
def reportedFields (policy : Policy) (options : Options) (root : Node) : List Symbol :=
  if options.unusedPrivateFields then
    (policy.nodesWithRole .classLike root).flatMap policy.unusedPrivateFields
  else []

/-- The unused symbols of a tree that the options report: those of functions, then those of
classes. -/
def unusedSymbols (policy : Policy) (options : Options) (root : Node) : List Symbol :=
  policy.reportedNames options root ++ policy.reportedFields options root

/-- The issues of a tree. -/
def issues (policy : Policy) (options : Options) (file : String) (root : Node) : List Issue :=
  sortIssues ((policy.unusedSymbols options root).map (Issue.ofSymbol file))

end Policy

/-- The issues of a file in a language. -/
def issuesOf (language : Language) (options : Options) (file : String) (root : Node) :
    List Issue :=
  (policyFor language).issues options file root

end CodeFacts.Unused
