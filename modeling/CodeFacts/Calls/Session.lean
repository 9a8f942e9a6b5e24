import CodeFacts.Calls.Hierarchy
import CodeFacts.FileSystem.Walk

/-!
# Call sessions

A session answers queries about the calls of one project. It is opened on a root directory once
and for all, reads a file when a query first touches it, and answers from the files read so far:
what was never read is never seen. Closing forgets the files and keeps the root.

Every operation gives its answer together with the session after it. A file that cannot be read
gives an empty answer and leaves nothing behind.
-/

namespace CodeFacts.Calls

/-- A session: the root, once it is opened, and the files read so far. -/
structure Session where
  root : Option Path
  store : Store
deriving DecidableEq, Repr, Inhabited

/-- A place in a file to ask about. -/
structure Query where
  file : Path
  position : Position
deriving DecidableEq, Repr, Inhabited

namespace Session

/-- The session before it is opened. -/
def new : Session :=
  ⟨none, Store.empty⟩

/-- Opens a session on a directory. A session that is open stays as it is. -/
def openAt (files : FileSystem) (session : Session) (root : Path) :
    Except Failure Unit × Session :=
  match session.root with
  | some _ => (.ok (), session)
  | none =>
    let root := Path.absolute files.workingDirectory root
    match files.lookup root with
    | .error fault => (.error (.io root fault), session)
    | .ok .directory => (.ok (), { session with root := some root })
    | .ok _ => (.error (.io root .rootNotDirectory), session)

/-- Forgets all files. -/
def shutdown (session : Session) : Session :=
  { session with store := Store.empty }

/-- Whether a file is one that the session's language is written in. -/
def supports (path : Path) : Bool :=
  Language.ofPath? path == some .python

/-- The normalized path of a file below the root. -/
def resolve (session : Session) (file : Path) : Except Failure Path :=
  match session.root with
  | none => .error .notInitialized
  | some root => .ok (root.join file).normalize

/-- What is known of a path, reading the file if nothing is. -/
def load (files : FileSystem) (session : Session) (path : Path) : Option LoadedFile × Session :=
  match session.store.get? path with
  | some file => (some file, session)
  | none =>
    match files.read path with
    | .error _ => (none, session)
    | .ok source =>
      let (file, store) := session.store.insert path (Text.lossyText source.bytes)
        (declarationsOf source.tree) (callsOf source.tree)
      (some file, { session with store })

/-- Answers a query about a file from what is known of it and of the others, after reading it. -/
def withFile {α : Type} (files : FileSystem) (session : Session) (file : Path)
    (answer : Store → LoadedFile → List α) : Except Failure (List α) × Session :=
  match session.resolve file with
  | .error failure => (.error failure, session)
  | .ok path =>
    match session.load files path with
    | (none, session) => (.ok [], session)
    | (some loaded, session) => (.ok (answer session.store loaded), session)

/-- The declarations of a file. -/
def declarations (files : FileSystem) (session : Session) (file : Path) :
    Except Failure (List Declaration) × Session :=
  session.withFile files file fun _ loaded => loaded.declarations

/-- The calls of a file. -/
def calls (files : FileSystem) (session : Session) (file : Path) :
    Except Failure (List CallSite) × Session :=
  session.withFile files file fun _ loaded => loaded.calls

/-- The symbols of a file. -/
def symbols (files : FileSystem) (session : Session) (file : Path) :
    Except Failure (List FileSymbol) × Session :=
  session.withFile files file fun _ loaded =>
    loaded.declarations.map (FileSymbol.ofDeclaration loaded.path)

/-- The known calls of the declaration at a position. -/
def references (files : FileSystem) (session : Session) (query : Query) :
    Except Failure (List SourceLocation) × Session :=
  session.withFile files query.file fun store loaded =>
    match declarationAt? loaded.declarations query.position.line with
    | none => []
    | some declaration => store.references declaration.name

/-- The definitions of what stands at a position. -/
def definition (files : FileSystem) (session : Session) (query : Query) :
    Except Failure (List SourceLocation) × Session :=
  session.withFile files query.file fun store loaded => store.definition loaded query.position

/-- The declaration at a position as an item. -/
def prepare (files : FileSystem) (session : Session) (query : Query) :
    Except Failure (List Item) × Session :=
  session.withFile files query.file fun _ loaded =>
    ((declarationAt? loaded.declarations query.position.line).map
      (Item.ofDeclaration loaded.path)).toList

/-- The known callers of an item. -/
def incoming (session : Session) (item : Item) : Except Failure (List IncomingCall) :=
  match session.root with
  | none => .error .notInitialized
  | some _ => .ok (session.store.incoming item.name)

/-- The calls made within an item. -/
def outgoing (files : FileSystem) (session : Session) (item : Item) :
    Except Failure (List OutgoingCall) × Session :=
  session.withFile files item.file fun store loaded => store.outgoing loaded item

/-- The paths of the files read so far, in order. -/
def loadedPaths (session : Session) : List Path :=
  session.store.files.map LoadedFile.path

/-- The text of a file that was read before. -/
def contents? (session : Session) (file : Path) : Option String :=
  match session.resolve file with
  | .error _ => none
  | .ok path => session.store.contents.get? path

end Session

end CodeFacts.Calls
