import CodeFacts.Imports.Build
import CodeFacts.Imports.Cycle

/-!
# Checking a project for import cycles

The check builds the dependency graph of a directory and reports its cycles. A file stands for its
directory. A check that cannot be carried out gives a report that says so; one that is aborted gives
none.
-/

namespace CodeFacts.Imports

/-- A cycle as it is reported. -/
structure CycleIssue where
  /-- The files of the cycle as they are displayed, the first repeated at the end. -/
  files : List String
  summary : String
  /-- The number of different files. -/
  length : Nat
deriving DecidableEq, Repr, Inhabited

/-- The issue for a cycle of a graph. -/
def CycleIssue.ofCycle (graph : Graph) (cycle : Cycle) : CycleIssue :=
  let files := cycle.map graph.display
  ⟨files, " → ".intercalate files, files.length - 1⟩

/-- The outcome of a check for cycles. -/
structure CycleReport where
  success : Bool
  issues : List CycleIssue
  summary : String
  filesAnalyzed : Nat
  error : Option String
deriving DecidableEq, Repr, Inhabited

namespace CycleReport

/-- The report of a check that could not be carried out. -/
def failed (message : String) : CycleReport where
  success := false
  issues := []
  summary := "Circular dependency check failed: " ++ message
  filesAnalyzed := 0
  error := some message

/-- What was found, in words. -/
def describe (issueCount fileCount : Nat) : String :=
  match issueCount with
  | 0 => s!"No circular dependencies found in {fileCount} files"
  | 1 => s!"Found 1 circular dependency in {fileCount} files"
  | _ => s!"Found {issueCount} circular dependencies in {fileCount} files"

/-- The report on what a search has found in a graph. -/
def ofSearch (graph : Graph) (limits : CycleLimits) (search : Search) : CycleReport :=
  let issues := search.cycles.map (CycleIssue.ofCycle graph)
  let stopped :=
    if search.truncated then s!" (stopped at limit of {limits.maxCycles.toNat})" else ""
  { success := true
    issues
    summary := describe issues.length graph.nodes.length ++ stopped
    filesAnalyzed := graph.nodes.length
    error := none }

/-- The report on the cycles of a graph. -/
def ofGraph (graph : Graph) (limits : CycleLimits) : Except Abort CycleReport :=
  (graph.findCycles limits).map (ofSearch graph limits)

end CycleReport

/-- The directory that is checked for a target: the target itself, or the directory of a file. -/
def checkedDirectory (files : FileSystem) (target : Path) : Path :=
  match target.parent? with
  | none => target
  | some directory => if files.isFile target then directory else target

/-- Reports the import cycles of a directory, or of the directory of a file. -/
def checkCycles (files : FileSystem) (limits : CycleLimits) (excludePatterns : List String)
    (target : Path) : Except Abort CycleReport :=
  let target := Path.absolute files.workingDirectory target
  let directory := checkedDirectory files target
  if files.isDirectory directory then
    match buildGraph files directory excludePatterns with
    | .error failure => .ok (CycleReport.failed failure.message)
    | .ok graph => CycleReport.ofGraph graph limits
  else
    .ok (CycleReport.failed ("cannot access " ++ target.text))

end CodeFacts.Imports
