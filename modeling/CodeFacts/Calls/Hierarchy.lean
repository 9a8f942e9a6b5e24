import CodeFacts.Calls.Store

/-!
# Call hierarchies

The items, locations and groups in which queries about calls are answered. All positions are
1-based. Declarations and calls are matched by name alone: a call may be a call of any declaration
named like the last segment of what it calls.
-/

namespace CodeFacts.Calls

/-- A position in a file. -/
structure Position where
  line : Nat
  column : Nat
deriving DecidableEq, Repr, Inhabited

/-- The position as `line:column`. -/
def Position.label (position : Position) : String :=
  s!"{position.line}:{position.column}"

/-- A place in a file. -/
structure SourceLocation where
  file : Path
  line : Nat
  column : Nat
  endLine : Option Nat
deriving DecidableEq, Repr, Inhabited

/-- The location as `file:line:column`. -/
def SourceLocation.label (location : SourceLocation) : String :=
  s!"{location.file.text}:{location.line}:{location.column}"

/-- What an item of a call hierarchy is. -/
inductive ItemKind where
  | function
  | method
  | classDefinition
  | module
deriving DecidableEq, Repr, Inhabited

namespace ItemKind

/-- The identifier of a kind in reports. -/
def id : ItemKind → String
  | function => "function"
  | method => "method"
  | classDefinition => "class"
  | module => "module"

/-- The kind of a declaration. -/
def ofDeclaration : DeclarationKind → ItemKind
  | .function => function
  | .method => method
  | .classDefinition => classDefinition

end ItemKind

/-- A function, method or class, or the top level of a file, as caller or callee. -/
structure Item where
  name : String
  qualifiedName : String
  kind : ItemKind
  file : Path
  line : Nat
  column : Nat
  /-- The last line, if it is known. -/
  endLine : Option Nat
  detail : Option String
deriving DecidableEq, Repr, Inhabited

namespace Item

/-- The item of a declaration in a file. -/
def ofDeclaration (file : Path) (declaration : Declaration) : Item where
  name := declaration.name
  qualifiedName := declaration.qualifiedName
  kind := ItemKind.ofDeclaration declaration.kind
  file := file
  line := declaration.startLine
  column := declaration.span.startColumn
  endLine := some declaration.endLine
  detail := some declaration.signature

/-- The item of the code at the top level of a file. -/
def topLevel (file : Path) : Item where
  name := "<module>"
  qualifiedName := "<module>"
  kind := .module
  file := file
  line := 1
  column := 1
  endLine := none
  detail := none

/-- Where an item stands. -/
def location (item : Item) : SourceLocation :=
  ⟨item.file, item.line, item.column, item.endLine⟩

end Item

/-- A caller and the places from which it calls. -/
structure IncomingCall where
  caller : Item
  ranges : List Position
deriving DecidableEq, Repr, Inhabited

/-- A called name, the declaration that it leads to, and the places where it is called. -/
structure OutgoingCall where
  callee : String
  target : Option Item
  ranges : List Position
deriving DecidableEq, Repr, Inhabited

/-- A declaration in the list of a file's symbols. -/
structure FileSymbol where
  name : String
  qualifiedName : String
  kind : ItemKind
  location : SourceLocation
  container : Option String
  exported : Bool
  detail : Option String
deriving DecidableEq, Repr, Inhabited

/-- Where a declaration of a file stands. -/
def locationOf (file : Path) (declaration : Declaration) : SourceLocation :=
  (Item.ofDeclaration file declaration).location

/-- Names with a leading underscore are not exported, unless two underscores stand at both ends
of something. -/
def isExported (name : String) : Bool :=
  let chars := name.toList
  let dunder := decide (4 < name.utf8ByteSize) && "__".toList.isPrefixOf chars &&
    "__".toList.isSuffixOf chars
  dunder || chars.head? != some '_'

/-- The symbol of a declaration in a file. -/
def FileSymbol.ofDeclaration (file : Path) (declaration : Declaration) : FileSymbol where
  name := declaration.name
  qualifiedName := declaration.qualifiedName
  kind := ItemKind.ofDeclaration declaration.kind
  location := locationOf file declaration
  container := declaration.className
  exported := isExported declaration.name
  detail := some declaration.signature

/-- The last of the declarations that start on the latest line. -/
def latest? : List Declaration → Option Declaration
  | [] => none
  | declaration :: rest =>
    match latest? rest with
    | none => some declaration
    | some other =>
      if other.startLine < declaration.startLine then some declaration else some other

/-- The declaration at a line: the first that starts there, else the innermost around it. -/
def declarationAt? (declarations : List Declaration) (line : Nat) : Option Declaration :=
  match declarations.find? fun declaration => declaration.startLine == line with
  | some declaration => some declaration
  | none => latest? (declarations.filter fun declaration => declaration.coversLine line)

/-- The position of a call. -/
def CallSite.position (call : CallSite) : Position :=
  ⟨call.line, call.column⟩

/-- The item in which a call stands: the declaration at its line, or the top level. -/
def callerOf (file : LoadedFile) (call : CallSite) : Item :=
  match declarationAt? file.declarations call.line with
  | some declaration => Item.ofDeclaration file.path declaration
  | none => Item.topLevel file.path

/-- Adds a position to the group of a caller. -/
def addIncoming (caller : Item) (position : Position) : List IncomingCall → List IncomingCall
  | [] => [⟨caller, [position]⟩]
  | group :: rest =>
    if group.caller = caller then { group with ranges := group.ranges ++ [position] } :: rest
    else group :: addIncoming caller position rest

/-- Adds a position to the group of a called name. -/
def addOutgoing (callee : String) (target : Option Item) (position : Position) :
    List OutgoingCall → List OutgoingCall
  | [] => [⟨callee, target, [position]⟩]
  | group :: rest =>
    if group.callee = callee then { group with ranges := group.ranges ++ [position] } :: rest
    else group :: addOutgoing callee target position rest

/-- The lines after an item's first that belong to it when its end is unknown. -/
def fallbackLines : Nat := 100

/-- The last line of an item. -/
def Item.lastLine (item : Item) : Nat :=
  item.endLine.getD (item.line + fallbackLines)

namespace Store

/-- The declarations with a given name as items, those of a preferred file first. -/
def declarationsNamed (store : Store) (name : String) (preferred : Path) : List Item :=
  let isPreferred (file : LoadedFile) : Bool := file.path.same preferred
  let ordered := store.files.filter isPreferred ++ store.files.filter fun file => !isPreferred file
  ordered.flatMap fun file =>
    (file.declarations.filter fun declaration => declaration.name == name).map
      (Item.ofDeclaration file.path)

/-- The calls of loaded files that may be calls of a given name, each with its file. -/
def callsTargeting (store : Store) (name : String) : List (LoadedFile × CallSite) :=
  store.files.flatMap fun file =>
    (file.calls.filter fun call => call.targets name).map fun call => (file, call)

/-- The places of the calls that may be calls of a given name. -/
def references (store : Store) (name : String) : List SourceLocation :=
  (store.callsTargeting name).map fun (file, call) => ⟨file.path, call.line, call.column, none⟩

/-- The callers of a given name, in the order of their first calls. -/
def incoming (store : Store) (name : String) : List IncomingCall :=
  (store.callsTargeting name).foldl
    (fun groups (file, call) => addIncoming (callerOf file call) call.position groups) []

/-- The calls of a file within an item, grouped by what they call. -/
def outgoing (store : Store) (file : LoadedFile) (item : Item) : List OutgoingCall :=
  (file.calls.filter fun call =>
    decide (item.line ≤ call.line) && decide (call.line ≤ item.lastLine)).foldl
    (fun groups call =>
      addOutgoing call.callee (store.declarationsNamed call.bareName file.path).head?
        call.position groups) []

/-- Where the name at a position is defined: the declarations that a call at the position leads
to, else the declaration around it. -/
def definition (store : Store) (file : LoadedFile) (position : Position) : List SourceLocation :=
  match file.calls.find? fun call =>
      call.line == position.line && call.calleeCovers position.column with
  | some call => (store.declarationsNamed call.bareName file.path).map Item.location
  | none =>
    ((declarationAt? file.declarations position.line).map (locationOf file.path)).toList

end Store

end CodeFacts.Calls
