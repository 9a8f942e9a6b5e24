import CodeFacts.Calls.Session
import CodeFacts.Glob.Excludes

/-!
# Questions about calls

What a user asks of a session: the callers or callees of what stands at a position, its references
or its definition. Loading every source file below a root first makes the answers complete for it.
-/

namespace CodeFacts.Calls

/-- What is asked about a position. -/
inductive Direction where
  | incoming
  | outgoing
  | references
  | definition
deriving DecidableEq, Repr, Inhabited

namespace Direction

/-- Every direction. -/
def all : List Direction :=
  [incoming, outgoing, references, definition]

/-- The identifier of a direction. -/
def id : Direction → String
  | incoming => "incoming"
  | outgoing => "outgoing"
  | references => "references"
  | definition => "definition"

/-- The direction with an identifier. -/
def ofId? (text : String) : Option Direction :=
  all.find? fun direction => direction.id == text

end Direction

/-- The answer to a question. -/
inductive Answer where
  | incoming (calls : List IncomingCall)
  | outgoing (calls : List OutgoingCall)
  | references (locations : List SourceLocation)
  | definition (locations : List SourceLocation)
deriving DecidableEq, Repr, Inhabited

namespace Answer

/-- What was asked. -/
def direction : Answer → Direction
  | incoming _ => .incoming
  | outgoing _ => .outgoing
  | references _ => .references
  | definition _ => .definition

/-- The number of results. -/
def size : Answer → Nat
  | incoming calls => calls.length
  | outgoing calls => calls.length
  | references locations => locations.length
  | definition locations => locations.length

end Answer

namespace Session

/-- Reads files one by one, and counts them. -/
def loadAll (files : FileSystem) (session : Session) : List Path → Except Failure Nat × Session
  | [] => (.ok 0, session)
  | path :: rest =>
    match session.symbols files path with
    | (.error failure, session) => (.error failure, session)
    | (.ok _, session) =>
      match session.loadAll files rest with
      | (.error failure, session) => (.error failure, session)
      | (.ok count, session) => (.ok (count + 1), session)

/-- Reads every source file below a root that no pattern excludes, and counts them. -/
def preload (files : FileSystem) (session : Session) (root : Path)
    (excludePatterns : List String) : Except Failure Nat × Session :=
  match Glob.Excludes.compile excludePatterns with
  | .error failure => (.error failure, session)
  | .ok excluded =>
    match files.sourceFiles root excluded.excludes fun language => language == .python with
    | .error failure => (.error failure, session)
    | .ok paths => session.loadAll files (paths.filter supports)

/-- The callers of each of a list of items. -/
def incomingOfAll (session : Session) (items : List Item) : Except Failure (List IncomingCall) :=
  (items.mapM session.incoming).map List.flatten

/-- The calls within each of a list of items. -/
def outgoingOfAll (files : FileSystem) (session : Session) :
    List Item → Except Failure (List OutgoingCall) × Session
  | [] => (.ok [], session)
  | item :: rest =>
    match session.outgoing files item with
    | (.error failure, session) => (.error failure, session)
    | (.ok calls, session) =>
      match session.outgoingOfAll files rest with
      | (.error failure, session) => (.error failure, session)
      | (.ok others, session) => (.ok (calls ++ others), session)

/-- Answers a question, the file in question always being read. -/
def ask (files : FileSystem) (session : Session) (direction : Direction) (query : Query) :
    Except Failure Answer × Session :=
  match session.symbols files query.file with
  | (.error failure, session) => (.error failure, session)
  | (.ok _, session) =>
    match direction with
    | .references =>
      let (answer, session) := session.references files query
      (answer.map Answer.references, session)
    | .definition =>
      let (answer, session) := session.definition files query
      (answer.map Answer.definition, session)
    | .incoming =>
      match session.prepare files query with
      | (.error failure, session) => (.error failure, session)
      | (.ok items, session) => ((session.incomingOfAll items).map Answer.incoming, session)
    | .outgoing =>
      match session.prepare files query with
      | (.error failure, session) => (.error failure, session)
      | (.ok items, session) =>
        let (answer, session) := session.outgoingOfAll files items
        (answer.map Answer.outgoing, session)

end Session

end CodeFacts.Calls
