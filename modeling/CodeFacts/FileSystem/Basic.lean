import CodeFacts.Failure
import CodeFacts.Tree.Node

/-!
# File systems

A file system is a list of entries, each with the names on the way to it from the root: files,
directories and symbolic links. A file holds its bytes and the syntax tree that a parser made of
them. Every place has one entry, and all names can stand in a path. Some files may not be read and
some directories may not be listed; what stands below such a one can still be reached by its name.

Locating a path follows links everywhere, the last component included, and counts them over the
whole path. A path that goes on below something that is no directory, be it by no more than a slash,
cannot be located.
-/

namespace CodeFacts

/-- What a file holds. -/
structure SourceFile where
  bytes : ByteArray
  /-- The syntax tree of the bytes. -/
  tree : Node
deriving Inhabited

/-- What stands at a place in a file system. -/
inductive Entry where
  | file (source : SourceFile)
  | directory
  | link (target : Path)
deriving Inhabited

/-- The names on the way from the root to an entry. -/
abbrev Location := List String

/-- A file system and the directory in which a program runs. -/
structure FileSystem where
  entries : List (Location × Entry)
  workingDirectory : Path
  /-- Where the files stand that may not be read, and the directories that may not be listed. -/
  unreadable : List Location := []
  distinct : (entries.map Prod.fst).Nodup := by decide
  names : ∀ entry ∈ entries, ∀ name ∈ entry.1, Path.IsName name := by decide
  absolute : workingDirectory.isAbsolute = true := by exact Eq.refl true

namespace FileSystem

/-- The file system with nothing but the root. -/
def empty : FileSystem where
  entries := []
  workingDirectory := ⟨"/"⟩

instance : Inhabited FileSystem := ⟨empty⟩

/-- What stands at a location; the root is always a directory. -/
def entry? (files : FileSystem) (location : Location) : Option Entry :=
  if location.isEmpty then some .directory
  else (files.entries.find? fun entry => entry.1 == location).map Prod.snd

/-- Whether a directory stands at a location. -/
def isDirectoryAt (files : FileSystem) (location : Location) : Bool :=
  match files.entry? location with
  | some .directory => true
  | _ => false

/-- Whether what stands at a location may not be read. -/
def isUnreadable (files : FileSystem) (location : Location) : Bool :=
  files.unreadable.contains location

/-- The number of bytes that a name may have. -/
def nameLimit : Nat := 255

/-- The number of bytes that a path may have. -/
def pathLimit : Nat := 4095

/-- The number of links that may be expanded on the way to one entry. -/
def linkLimit : Nat := 40

/-- Follows the segments of a path from a location. A link is handed to `expand`, with the location
at which it starts and the segments of it and of the rest of the path. On the way to a `fresh`
entry, the last segment may be missing. -/
def followSegments (files : FileSystem) (fresh : Bool)
    (expand : Location → List String → Except FileFault Location) (location : Location) :
    List String → Except FileFault Location
  | [] => .ok location
  | segment :: rest =>
    if !files.isDirectoryAt location then .error .notDirectory
    else if segment == "" || segment == "." then files.followSegments fresh expand location rest
    else if segment == ".." then files.followSegments fresh expand location.dropLast rest
    else if nameLimit < segment.utf8ByteSize then .error .nameTooLong
    else
      match files.entry? (location ++ [segment]) with
      | none => if fresh && rest.isEmpty then .ok (location ++ [segment]) else .error .noSuchEntry
      | some (.link target) =>
        expand (if target.isAbsolute then [] else location) (target.segmentTexts ++ rest)
      | some _ => files.followSegments fresh expand (location ++ [segment]) rest

/-- Follows the segments of a path from a location, expanding at most `links` links. -/
def follow (files : FileSystem) (fresh : Bool) : Nat → Location → List String →
    Except FileFault Location
  | 0 => files.followSegments fresh fun _ _ => .error .tooManyLinks
  | links + 1 => files.followSegments fresh (files.follow fresh links)

/-- Why a path cannot be located in any file system, if so. -/
def pathFault? (path : Path) : Option FileFault :=
  if path.text.toList.contains '\x00' then some .nullInPath
  else if path.text.isEmpty then some .noSuchEntry
  else if pathLimit < path.text.utf8ByteSize then some .nameTooLong
  else none

/-- The location of a path, with all links followed. -/
def locate (files : FileSystem) (path : Path) : Except FileFault Location :=
  match pathFault? path with
  | some fault => .error fault
  | none => files.follow false linkLimit [] (files.workingDirectory.join path).segmentTexts

/-- The file system seen from another directory, if that is written from the root. -/
def seenFrom (files : FileSystem) (directory : Path) : FileSystem :=
  if absolute : directory.isAbsolute = true then
    { files with workingDirectory := directory, absolute }
  else files

/-- The file system seen from the directory to which a path leads. The working directory is always
the place itself, so going up from it does not go back through the links on that path. -/
def enter (files : FileSystem) (path : Path) : FileSystem :=
  match files.locate path with
  | .ok location => files.seenFrom ⟨"/" ++ "/".intercalate location⟩
  | .error _ => files

/-- What stands at a path, with all links followed. -/
def lookup (files : FileSystem) (path : Path) : Except FileFault Entry :=
  match files.locate path with
  | .error fault => .error fault
  | .ok location =>
    match files.entry? location with
    | none => .error .noSuchEntry
    | some entry => .ok entry

/-- Whether a path leads to a file. -/
def isFile (files : FileSystem) (path : Path) : Bool :=
  match files.lookup path with
  | .ok (.file _) => true
  | _ => false

/-- Whether a path leads to a directory. -/
def isDirectory (files : FileSystem) (path : Path) : Bool :=
  match files.lookup path with
  | .ok .directory => true
  | _ => false

/-- Reads what stands at a location. -/
def readAt (files : FileSystem) (location : Location) : Except FileFault SourceFile :=
  match files.entry? location with
  | none => .error .noSuchEntry
  | some entry =>
    if files.isUnreadable location then .error .permissionDenied
    else
      match entry with
      | .file source => .ok source
      | _ => .error .isDirectory

/-- Reads the file to which a path leads. -/
def read (files : FileSystem) (path : Path) : Except FileFault SourceFile :=
  match files.locate path with
  | .error fault => .error fault
  | .ok location => files.readAt location

/-- Reads the file to which a path leads as text. -/
def readText (files : FileSystem) (path : Path) : Except FileFault String :=
  match files.read path with
  | .error fault => .error fault
  | .ok source =>
    match String.fromUTF8? source.bytes with
    | none => .error .notText
    | some text => .ok text

/-- The names and entries in a directory, in no particular order. -/
def list (files : FileSystem) (location : Location) : List (String × Entry) :=
  files.entries.filterMap fun (place, entry) =>
    if place.dropLast == location then place.getLast?.map fun name => (name, entry) else none

/-- The entries without the one at a location. -/
def entriesBut (files : FileSystem) (location : Location) : List (Location × Entry) :=
  files.entries.filter fun other => other.1 != location

theorem nodup_entriesBut (files : FileSystem) (location : Location) :
    ((files.entriesBut location).map Prod.fst).Nodup :=
  files.distinct.sublist (List.filter_sublist.map Prod.fst)

theorem names_entriesBut (files : FileSystem) (location : Location) :
    ∀ entry ∈ files.entriesBut location, ∀ name ∈ entry.1, Path.IsName name :=
  fun entry entry_mem => files.names entry (List.mem_filter.mp entry_mem).1

/-- The file system with something else at a location, if that can be written. What is written over
can be read as before. -/
def put (files : FileSystem) (location : Location) (entry : Entry) : FileSystem :=
  if proper : ∀ name ∈ location, Path.IsName name then
    { files with
      entries := (location, entry) :: files.entriesBut location
      distinct := by
        refine List.nodup_cons.mpr ⟨?_, files.nodup_entriesBut location⟩
        simp [entriesBut]
      names := List.forall_mem_cons.mpr ⟨proper, files.names_entriesBut location⟩ }
  else files

/-- The file system in which what stands at a location may not be read. -/
def protect (files : FileSystem) (location : Location) : FileSystem :=
  { files with unreadable := location :: files.unreadable }

/-- The location of an entry itself: links to the directories above it are followed, and the entry
is not. -/
def ownLocation (files : FileSystem) (location : Location) : Except FileFault Location :=
  match location.getLast? with
  | none => .ok []
  | some name => (files.follow false linkLimit [] location.dropLast).map (· ++ [name])

/-- The file system with a directory at a location, unless something stands there. -/
def ensureDirectory (files : FileSystem) (location : Location) : FileSystem :=
  match files.entry? location with
  | some _ => files
  | none =>
    match files.follow true linkLimit [] location with
    | .ok place =>
      match files.entry? place with
      | some _ => files
      | none => files.put place .directory
    | .error _ => files

/-- The file system with directories at a location and above it. -/
def ensureDirectories (files : FileSystem) (location : Location) : FileSystem :=
  ((List.range (location.length + 1)).map location.take).foldl ensureDirectory files

/-- The file system with something at a location and directories above it. -/
def create (files : FileSystem) (location : Location) (entry : Entry) : FileSystem :=
  let files := files.ensureDirectories location.dropLast
  match files.ownLocation location with
  | .ok place => files.put place entry
  | .error _ => files

/-- The file system after a file was written. A link is followed to the file that it names, which
need not exist. -/
def write (files : FileSystem) (location : Location) (source : SourceFile) : FileSystem :=
  let files := files.ensureDirectories location.dropLast
  match files.follow true linkLimit [] location with
  | .ok place => if files.isDirectoryAt place then files else files.put place (.file source)
  | .error _ => files

/-- The file system without the file or link at a location, if there is one. A link is removed
itself. -/
def remove? (files : FileSystem) (location : Location) : Option FileSystem :=
  match files.ownLocation location with
  | .error _ => none
  | .ok place =>
    match files.entry? place with
    | none => none
    | some .directory => none
    | some _ =>
      some
        { files with
          entries := files.entriesBut place
          unreadable := files.unreadable.filter fun other => other != place
          distinct := files.nodup_entriesBut place
          names := files.names_entriesBut place }

end FileSystem

end CodeFacts
