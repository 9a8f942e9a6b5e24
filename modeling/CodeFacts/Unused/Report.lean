import CodeFacts.FileSystem.Walk
import CodeFacts.Glob.Excludes
import CodeFacts.Unused.Analysis

/-!
# Unused symbols of files and directories

A directory is checked file by file. A file that cannot be read is left out and does not disturb
the others; a target that does not exist or a bad exclude pattern fails the whole check, and the
failure is part of the report.
-/

namespace CodeFacts.Unused

/-- The issues of one file, which is named in them as the path is written. -/
def checkFile (files : FileSystem) (options : Options) (path : Path) :
    Except Failure (List Issue) :=
  match Language.ofPath? path with
  | none => .error (.unsupportedFile path)
  | some language =>
    match files.read path with
    | .error fault => .error (.io path fault)
    | .ok source => .ok (issuesOf language options path.text source.tree)

/-- The outcome of a check of a file or directory. -/
structure Report where
  success : Bool
  issues : List Issue
  filesAnalyzed : Nat
  summary : String
  error : Option String
deriving DecidableEq, Repr, Inhabited

namespace Report

/-- The report of a check that could not be carried out. -/
def failed (message : String) : Report where
  success := false
  issues := []
  filesAnalyzed := 0
  summary := "Dead code check failed: " ++ message
  error := some message

/-- What was found, in words. -/
def describe (issueCount fileCount : Nat) : String :=
  match issueCount with
  | 0 => s!"No unused symbols found in {fileCount} files"
  | 1 => s!"Found 1 unused symbol in {fileCount} files"
  | _ => s!"Found {issueCount} unused symbols in {fileCount} files"

/-- The report on the outcomes of single files. -/
def ofOutcomes (outcomes : List (Except Failure (List Issue))) : Report :=
  let checked := outcomes.filterMap fun outcome => outcome.toOption
  let issues := checked.flatten
  { success := true
    issues
    filesAnalyzed := checked.length
    summary := describe issues.length checked.length
    error := none }

/-- The number of issues of each kind, in the order of the kinds. -/
def counts (report : Report) : List (IssueKind × Nat) :=
  IssueKind.all.map fun kind =>
    (kind, (report.issues.filter fun issue => issue.kind == kind).length)

end Report

/-- The files that a check of a target looks at: the target itself if it is a file, else the
source files below it. -/
def targetFiles (files : FileSystem) (target : Path) (excludePatterns : List String) :
    Except Failure (List Path) :=
  if files.isFile target then .ok [target]
  else if files.isDirectory target then
    match Glob.Excludes.compile excludePatterns with
    | .error failure => .error failure
    | .ok excluded => files.sourceFiles target excluded.excludes fun _ => true
  else .error (.io target .noSuchTarget)

/-- Checks a file, or every source file below a directory. -/
def check (files : FileSystem) (options : Options) (excludePatterns : List String)
    (target : Path) : Report :=
  match targetFiles files (Path.absolute files.workingDirectory target) excludePatterns with
  | .error failure => Report.failed failure.message
  | .ok paths => Report.ofOutcomes (paths.map (checkFile files options))

end CodeFacts.Unused
