import CodeFacts.Calls.CallSite
import CodeFacts.Calls.Declaration
import CodeFacts.FileSystem.Basic
import CodeFacts.Path.Map
import CodeFacts.Text.Utf8

/-!
# Loaded files

A session remembers what it has read of each file in three maps, one for the texts, one for the
declarations and one for the calls. A file is known if it has both declarations and calls, and what
is known first stays. Nothing but the way in which the maps are filled makes them agree.
-/

namespace CodeFacts.Calls

/-- What is known of one file. -/
structure LoadedFile where
  path : Path
  declarations : List Declaration
  calls : List CallSite
deriving DecidableEq, Repr, Inhabited

/-- What is read of a file at a path. -/
def LoadedFile.ofSource (path : Path) (source : SourceFile) : LoadedFile where
  path := path
  declarations := declarationsOf source.tree
  calls := callsOf source.tree

/-- What has been read of files, by their paths. -/
structure Store where
  contents : PathMap String
  declarations : PathMap (List Declaration)
  calls : PathMap (List CallSite)
deriving DecidableEq, Repr, Inhabited

namespace Store

/-- The store before anything is loaded. -/
def empty : Store :=
  ⟨PathMap.empty, PathMap.empty, PathMap.empty⟩

/-- What is known of a path, named as it is asked for. -/
def get? (store : Store) (path : Path) : Option LoadedFile :=
  match store.declarations.get? path, store.calls.get? path with
  | some declarations, some calls => some ⟨path, declarations, calls⟩
  | _, _ => none

/-- Stores what was read of a file, unless the file is known. Gives what is known of it afterwards,
and the store. -/
def insert (store : Store) (path : Path) (contents : String) (declarations : List Declaration)
    (calls : List CallSite) : LoadedFile × Store :=
  match store.get? path with
  | some file => (file, store)
  | none =>
    let store : Store :=
      ⟨store.contents.insert path contents, store.declarations.insert path declarations,
        store.calls.insert path calls⟩
    ((store.get? path).getD ⟨path, [], []⟩, store)

/-- The known files in the order of their paths. -/
def files (store : Store) : List LoadedFile :=
  store.calls.keys.filterMap store.get?

/-- The number of files whose calls are stored. -/
def size (store : Store) : Nat :=
  store.calls.size

end Store

end CodeFacts.Calls
