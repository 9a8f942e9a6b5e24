import CodeFacts.Tree.Walk

/-!
# What a language says about scopes

One algorithm finds unused symbols in every language. A `Policy` is all that it asks of a
language: which nodes open a scope, which bind and which read a name, which fields are private,
and which idioms make it hopeless to judge a class's fields from its text.
-/

namespace CodeFacts.Unused

/-- What a node means to the analysis. -/
inductive Role where
  /-- A function, method or closure: owns parameters and local variables. -/
  | function
  /-- A class or something like it: owns private fields. -/
  | classLike
  | other
deriving DecidableEq, Repr, Inhabited

/-- How a private field is found to be unused. -/
inductive FieldRule where
  /-- No access names the field, its own declaration aside. -/
  | declarationVersusUse
  /-- The name occurs at most once, its declaration included. -/
  | occurrenceCount
deriving DecidableEq, Repr, Inhabited

/-- The tables and predicates of one language. -/
structure Policy where
  role : Cursor → Role
  /-- Parameter names that stand for the receiving instance. -/
  selfNames : List String
  /-- The identifiers that declare a function's parameters. -/
  parameters : Cursor → List Cursor
  /-- The identifiers that a node itself binds as local variables. -/
  localBindings : Cursor → List Cursor
  /-- Whether a node is an identifier that reads a name. -/
  isUse : Cursor → Bool
  /-- The identifiers that declare a class's private fields. -/
  privateFields : Cursor → List Cursor
  /-- The nodes that count as occurrences of the fields they name. -/
  fieldUses : Cursor → List Cursor
  /-- Whether a class uses an idiom that reaches fields without naming them. -/
  hasDynamicAccess : Cursor → Bool
  fieldRule : FieldRule
  /-- Whether a leading underscore is what makes a field private. -/
  underscoreMarksPrivacy : Bool

/-- The body of a function; abstract and ambient declarations have none. -/
def body? (function : Cursor) : Option Cursor :=
  function.childByField? "body"

/-- The name under which a class is reported. -/
def className? (classNode : Cursor) : Option String :=
  (classNode.childByField? "name").map Cursor.text

/-- Parameters and local variables whose name starts with an underscore are never reported. -/
def startsWithUnderscore (name : String) : Bool :=
  name.toList.head? == some '_'

namespace Policy

/-- Whether a private field is exempt by its name: `_` always, and any leading underscore where
the underscore is not what makes a field private. -/
def exemptsField (policy : Policy) (name : String) : Bool :=
  name == "_" || (startsWithUnderscore name && !policy.underscoreMarksPrivacy)

end Policy

/-- The cursors of a list, each node once, in the order of first occurrence. -/
def distinct : List Cursor → List Cursor
  | [] => []
  | cursor :: rest => cursor :: (distinct rest).filter fun other => !other.isSame cursor

end CodeFacts.Unused
