import CodeFacts.Unused.Policy

/-!
# Scopes of functions

The scope of a function is what it declares, parameters before local variables, and what its body
reads. A name is declared once, by its first declaration. Local variables of nested functions and
classes belong to those, but a nested function that reads a name uses it. The identifiers that
declare are compared by their place in the tree, so a second declaration of a name is no use.
-/

namespace CodeFacts.Unused

/-- What a symbol is declared as. -/
inductive SymbolKind where
  | parameter
  | localVariable
  | privateField
deriving DecidableEq, Repr, Inhabited

/-- A declared name with the line of its declaration. -/
structure Symbol where
  name : String
  kind : SymbolKind
  line : Nat
  /-- The class to which a field belongs. -/
  className : Option String
deriving DecidableEq, Repr, Inhabited

/-- What a function declares and reads. -/
structure Scope where
  /-- Each declared name once, in the order of first declaration. -/
  declared : List Symbol
  /-- The names that are read, in the order of the text and with repetitions. -/
  used : List String
deriving DecidableEq, Repr, Inhabited

/-- The symbol that an identifier declares. -/
def Symbol.declaredBy (kind : SymbolKind) (identifier : Cursor) : Symbol :=
  ⟨identifier.text, kind, identifier.line, none⟩

/-- The symbols of a list, each name once, with its first symbol. -/
def firstOfEachName : List Symbol → List Symbol
  | [] => []
  | symbol :: rest =>
    symbol :: (firstOfEachName rest).filter fun other => other.name != symbol.name

namespace Scope

/-- Whether some identifier that is no declaration reads the name. -/
def uses (scope : Scope) (name : String) : Bool :=
  scope.used.contains name

/-- The symbols that are never read and whose name does not exempt them. -/
def unused (scope : Scope) : List Symbol :=
  scope.declared.filter fun symbol =>
    !scope.uses symbol.name && !startsWithUnderscore symbol.name

/-- The names that are read, sorted by code points and without repetitions. -/
def usedNames (scope : Scope) : List String :=
  scope.used.eraseDups.mergeSort fun first second => decide (first ≤ second)

end Scope

namespace Policy

/-- The nodes of a body that may bind local variables of its function: nothing below a nested
function or class. -/
def bindingNodes (policy : Policy) (body : Cursor) : List Cursor :=
  body.walk fun cursor => cursor.isSame body || policy.role cursor == .other

/-- The identifiers that declare local variables in a body. -/
def localDeclarations (policy : Policy) (body : Cursor) : List Cursor :=
  (policy.bindingNodes body).flatMap policy.localBindings

/-- The symbols that a function declares, repeated names included. -/
def declarations (policy : Policy) (function body : Cursor) : List Symbol :=
  ((policy.parameters function).filter fun parameter =>
      !policy.selfNames.contains parameter.text).map (Symbol.declaredBy .parameter) ++
    (policy.localDeclarations body).map (Symbol.declaredBy .localVariable)

/-- The addresses of the identifiers that declare something in a function. -/
def declarationSites (policy : Policy) (function body : Cursor) : List (List Nat) :=
  (policy.parameters function ++ policy.localDeclarations body).map Cursor.address

/-- The identifiers in a body that read a name. -/
def readIdentifiers (policy : Policy) (function body : Cursor) : List Cursor :=
  let sites := policy.declarationSites function body
  body.descendants.filter fun cursor => policy.isUse cursor && !sites.contains cursor.address

/-- The scope of a function; a function without a body has none. -/
def scope? (policy : Policy) (function : Cursor) : Option Scope :=
  match body? function with
  | none => none
  | some body =>
    let named := (policy.declarations function body).filter fun symbol => symbol.name != ""
    some
      { declared := firstOfEachName named
        used := (policy.readIdentifiers function body).map Cursor.text }

end Policy

end CodeFacts.Unused
