import CodeFacts.FileSystem.Basic
import CodeFacts.Language
import CodeFacts.Path.Normal
import CodeFacts.Path.Relative

/-!
# Source files below a directory

A walk visits everything below a directory, links followed, except directories of vendors and
build output, directories that may not be listed, links that lead nowhere, and links that lead back
to a directory on the way to them. `sourceFiles` keeps the files of accepted languages that are not
excluded by their paths below the root, in the order of their paths.
-/

namespace CodeFacts

/-- Names of directories that hold vendored code or build output. -/
def skippedDirectories : List String :=
  ["node_modules", ".git", "dist", "build", "out", "coverage", "vendor", "target", "__pycache__",
    ".next", ".nuxt", ".venv", "venv", ".turbo", ".cache"]

namespace FileSystem

/-- Where an entry of a directory leads: a file, or a directory with its location. Links are
followed, and one that leads to a directory already entered leads nowhere. -/
inductive Target where
  | file
  | directory (location : Location)
  | nowhere
deriving DecidableEq, Repr, Inhabited

/-- Where an entry leads that stands at `location` and was reached by `path`; `entered` are the
directories on the way to it. A link is followed by the whole path, with the links that were passed
before. -/
def target (files : FileSystem) (entered : List Location) (location : Location) (path : Path)
    (entry : Entry) : Target :=
  match entry with
  | .file _ => .file
  | .directory => .directory location
  | .link _ =>
    match files.locate path with
    | .error _ => .nowhere
    | .ok final =>
      match files.entry? final with
      | some (.file _) => .file
      | some .directory => if entered.contains final then .nowhere else .directory final
      | _ => .nowhere

/-- The files below the directory at `location`, each with a path that starts with `path`. A
directory cannot be listed if its path is too long or if it may not be. The depth of the walk is
bounded by the fuel. -/
def filesBelow (files : FileSystem) (entered : List Location) (location : Location) (path : Path) :
    Nat → List Path
  | 0 => []
  | fuel + 1 =>
    if (pathFault? path).isSome || files.isUnreadable location then []
    else
      (files.list location).flatMap fun (name, entry) =>
        let inner := path.join ⟨name⟩
        match files.target (location :: entered) (location ++ [name]) inner entry with
        | .file => [inner]
        | .nowhere => []
        | .directory below =>
          if skippedDirectories.contains name then []
          else files.filesBelow (location :: entered) below inner fuel

/-- A bound on the depth of a walk: between two links at most every entry is passed, and no
directory is entered by a link twice. -/
def walkFuel (files : FileSystem) : Nat :=
  (files.entries.length + 2) * (files.entries.length + 2)

/-- Every file that a walk from a path finds; a file is found from itself. A walk cannot start from a
directory that may not be listed. -/
def walk (files : FileSystem) (root : Path) : Except FileFault (List Path) :=
  match files.locate root with
  | .error fault => .error fault
  | .ok location =>
    match files.entry? location with
    | some (.file _) => .ok [root]
    | some .directory =>
      if files.isUnreadable location then .error .permissionDenied
      else .ok (files.filesBelow [] location root files.walkFuel)
    | _ => .error .noSuchEntry

/-- Whether a file found from a root is wanted: its language is accepted and its path below the
root is not excluded. -/
def isWanted (root : Path) (excluded : Path → Bool) (accept : Language → Bool) (path : Path) :
    Bool :=
  (match Language.ofPath? path with
    | none => false
    | some language => accept language) &&
    !excluded ((path.stripDirectory? root).getD path)

/-- The source files below a root, in the order of their paths. -/
def sourceFiles (files : FileSystem) (root : Path) (excluded : Path → Bool)
    (accept : Language → Bool) : Except Failure (List Path) :=
  let root := root.normalize
  match files.walk root with
  | .error fault => .error (.io root fault)
  | .ok found => .ok ((found.filter (isWanted root excluded accept)).mergeSort Path.le)

end FileSystem

end CodeFacts
