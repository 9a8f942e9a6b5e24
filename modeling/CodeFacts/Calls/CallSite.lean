import CodeFacts.Tree.Walk

/-!
# Calls in Python sources

A call is recorded when it calls a name or a dotted name, calls of built-in functions excepted.
Arguments are recorded as text, and long ones are cut.
-/

namespace CodeFacts.Calls

/-- Functions and types of the language itself, whose calls are not recorded. -/
def builtins : List String :=
  ["print", "len", "range", "str", "int", "float", "bool", "list", "dict", "set", "tuple",
    "frozenset", "isinstance", "issubclass", "super", "type", "open", "enumerate", "zip", "map",
    "filter", "sorted", "reversed", "min", "max", "sum", "any", "all", "abs", "round", "repr",
    "hash", "id", "iter", "next", "getattr", "setattr", "hasattr", "delattr", "vars", "dir",
    "callable", "format", "input", "globals", "locals", "object", "property", "staticmethod",
    "classmethod"]

/-- The number of characters to which an argument is cut. -/
def maxArgumentLength : Nat := 50

/-- A call. -/
structure CallSite where
  /-- The name that is called, as it is written. -/
  callee : String
  line : Nat
  column : Nat
  arguments : List String
deriving DecidableEq, Repr, Inhabited

namespace CallSite

/-- The last segment of a dotted name. -/
def lastSegment (name : String) : String :=
  String.ofList (name.toList.reverse.takeWhile (· != '.')).reverse

/-- The last segment of the called name. -/
def bareName (call : CallSite) : String :=
  lastSegment call.callee

/-- Whether the call may be a call of a function with a given name. -/
def targets (call : CallSite) (name : String) : Bool :=
  call.bareName == name

/-- Whether a column lies on the called name or right after it. -/
def calleeCovers (call : CallSite) (column : Nat) : Bool :=
  decide (call.column ≤ column) && decide (column ≤ call.column + call.callee.length)

end CallSite

/-- The text of an argument, cut if it is long. -/
def truncateArgument (text : String) : String :=
  if text.length ≤ maxArgumentLength then text
  else String.ofList (text.toList.take maxArgumentLength) ++ "..."

/-- The name that a call node calls, if the call is recorded. -/
def callee? (call : Cursor) : Option String :=
  match call.childByField? "function" with
  | none => none
  | some function =>
    match function.kind with
    | "identifier" => if builtins.contains function.text then none else some function.text
    | "attribute" => some function.text
    | _ => none

/-- The arguments of a call node. -/
def argumentsOf (call : Cursor) : List String :=
  match call.childByField? "arguments" with
  | none => []
  | some list => list.namedChildren.map fun argument => truncateArgument argument.text

/-- The record of a call node, if the call is recorded. -/
def callSite? (call : Cursor) : Option CallSite :=
  (callee? call).map fun callee =>
    { callee
      line := call.span.startLine
      column := call.span.startColumn
      arguments := argumentsOf call }

/-- The recorded calls of a tree, in document order. -/
def callsOf (tree : Node) : List CallSite :=
  ((Cursor.ofRoot tree).descendantsOfKind "call").filterMap callSite?

end CodeFacts.Calls
