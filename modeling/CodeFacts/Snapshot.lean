import CodeFacts.FileSystem.Basic
import CodeFacts.Tree.Listing

/-!
# Snapshots of projects

A snapshot is a text that holds a file system with the syntax trees of its files, one entry on a
line. The fields of a line are divided by tabs; a tab, a newline or a backslash within a field is
written with a backslash.

* `working`, path: the directory in which the program runs
* `directory`, path
* `link`, path, target
* `file`, path, contents
* `unreadable`, path: a file that may not be read or a directory that may not be listed, which
  stands on a line before
* `node`, kind, `named` or `token`, first byte, end, number of children, and perhaps a field name:
  a node of the tree of the file before it, in preorder

Lines of any other form are passed over.
-/

namespace CodeFacts.Snapshot

/-- A field without its escapes. -/
def unescape : List Char → List Char
  | '\\' :: 'n' :: rest => '\n' :: unescape rest
  | '\\' :: 't' :: rest => '\t' :: unescape rest
  | '\\' :: char :: rest => char :: unescape rest
  | char :: rest => char :: unescape rest
  | [] => []

/-- The fields of a line. -/
def fields (line : String) : List String :=
  (line.splitOn "\t").map fun field => String.ofList (unescape field.toList)

/-- The location that a path from the root names. -/
def location (path : String) : Location :=
  (path.splitOn "/").filter fun segment => segment != "" && segment != "."

/-- A file whose tree is still being read. -/
structure OpenFile where
  location : Location
  bytes : ByteArray
  /-- The nodes of the tree so far, the last one first. -/
  nodes : List ListingEntry
deriving Inhabited

/-- How far a snapshot has been read. -/
structure Progress where
  files : FileSystem
  openFile : Option OpenFile
deriving Inhabited

namespace Progress

/-- Puts the file whose tree was being read in its place. -/
def close (progress : Progress) : Progress :=
  match progress.openFile with
  | none => progress
  | some file =>
    let tree := (Listing.toNode? file.bytes file.nodes.reverse).getD Node.empty
    ⟨progress.files.create file.location (.file ⟨file.bytes, tree⟩), none⟩

/-- Adds a node to the tree that is being read. -/
def addNode (progress : Progress) (entry : ListingEntry) : Progress :=
  { progress with openFile := progress.openFile.map fun file =>
      { file with nodes := entry :: file.nodes } }

/-- The node that the fields of a line describe. -/
def entryOf? (kind role first stop children : String) (field : Option String) :
    Option ListingEntry := do
  return ⟨kind, role == "named", ← first.toNat?, ← stop.toNat?, ← children.toNat?, field⟩

/-- Reads a line. -/
def readLine (progress : Progress) (line : String) : Progress :=
  match fields line with
  | ["working", path] =>
    let closed := progress.close
    { closed with files := closed.files.seenFrom ⟨path⟩ }
  | ["directory", path] =>
    let closed := progress.close
    { closed with files := closed.files.ensureDirectories (location path) }
  | ["link", path, target] =>
    let closed := progress.close
    { closed with files := closed.files.create (location path) (.link ⟨target⟩) }
  | ["unreadable", path] =>
    let closed := progress.close
    { closed with files := closed.files.protect (location path) }
  | ["file", path, contents] =>
    { progress.close with openFile := some ⟨location path, contents.toUTF8, []⟩ }
  | ["node", kind, role, first, stop, children] =>
    ((entryOf? kind role first stop children none).map progress.addNode).getD progress
  | ["node", kind, role, first, stop, children, field] =>
    ((entryOf? kind role first stop children (some field)).map progress.addNode).getD progress
  | _ => progress

end Progress

/-- The file system that the lines of a snapshot describe. -/
def ofLines (lines : List String) : FileSystem :=
  let files := (lines.foldl Progress.readLine ⟨FileSystem.empty, none⟩).close.files
  files.enter files.workingDirectory

end CodeFacts.Snapshot
