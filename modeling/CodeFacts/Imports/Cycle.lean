import CodeFacts.Imports.Graph

/-!
# Import cycles

A depth-first search over the edges of a dependency graph. It keeps the paths on the current
branch (`visiting`) and those whose branch is finished (`visited`). An edge back into the current
branch closes a cycle: the part of the branch from that path on. A finished path is never entered
again, so a cycle that closes only through one is not reported.

Cycles longer than the limit are dropped. When one more cycle is found than may be reported, the
search stops.

Lengths are machine words. The entries of a cycle are one more than its files, and for the largest
limit on the files the limit on the entries is no word any more. It is computed when a cycle is
found, and then the run is aborted: `findCycles` has no result.
-/

namespace CodeFacts.Imports

/-- The limits of a search. -/
structure CycleLimits where
  /-- The number of files in the longest cycle that is reported. -/
  maxLength : UInt64 := 10
  /-- The number of cycles that are reported. -/
  maxCycles : UInt64 := 50
deriving DecidableEq, Repr, Inhabited

/-- The entries of the longest cycle that is reported, its first file repeated at the end, if they
can be counted by a machine word. -/
def CycleLimits.maxEntries? (limits : CycleLimits) : Option Nat :=
  let entries := limits.maxLength.toNat + 1
  if entries < UInt64.size then some entries else none

/-- Why a run ends without a result. -/
inductive Abort where
  /-- A count went beyond the largest machine word. -/
  | overflow
deriving DecidableEq, Repr, Inhabited

/-- A closed chain of imports: its first and last entries are the same file. -/
abbrev Cycle := List Path

/-- Where a search stands. -/
structure Search where
  /-- The paths of the current branch. -/
  visiting : List (List Component)
  /-- The paths whose branch is finished. -/
  visited : List (List Component)
  /-- The cycles found, in the order of discovery. -/
  cycles : List Cycle
  /-- Whether the search stopped because there were too many cycles. -/
  truncated : Bool
  /-- Whether the search was aborted because the entries of a cycle could not be counted. -/
  overflowed : Bool
deriving DecidableEq, Repr, Inhabited

namespace Search

/-- The search before its first step. -/
def start : Search :=
  ⟨[], [], [], false, false⟩

/-- Whether the search does not go on. -/
def stopped (search : Search) : Bool :=
  search.truncated || search.overflowed

/-- Records a cycle, or stops if there are enough. -/
def record (search : Search) (limits : CycleLimits) (cycle : Cycle) : Search :=
  if limits.maxCycles.toNat ≤ search.cycles.length then { search with truncated := true }
  else { search with cycles := search.cycles ++ [cycle] }

/-- Records a cycle unless it is too long, or aborts the search if that cannot be told. -/
def consider (search : Search) (limits : CycleLimits) (cycle : Cycle) : Search :=
  match limits.maxEntries? with
  | none => { search with overflowed := true }
  | some maxEntries => if cycle.length ≤ maxEntries then search.record limits cycle else search

/-- Considers the cycle that an edge from the end of the trail to `path` closes. -/
def close (search : Search) (limits : CycleLimits) (trail : List Path) (path : Path) : Search :=
  match trail.dropWhile fun entry => !entry.same path with
  | [] => search
  | loop => search.consider limits (loop ++ [path])

/-- Enters a path. -/
def enter (search : Search) (path : Path) : Search :=
  { search with visiting := path.components :: search.visiting }

/-- Leaves a path whose imports are all explored. -/
def leave (search : Search) (path : Path) : Search :=
  { search with
    visiting := search.visiting.filter fun other => other != path.components
    visited := path.components :: search.visited }

end Search

namespace Graph

/-- The files that a path imports. -/
def successors (graph : Graph) (path : Path) : List Path :=
  match graph.get? path with
  | none => []
  | some node => node.importsFrom

/-- Explores a path that is reached by a trail. The depth is bounded by the fuel. -/
def explore (graph : Graph) (limits : CycleLimits) :
    Nat → Path → List Path → Search → Search
  | 0, _, _, search => search
  | fuel + 1, path, trail, search =>
    if search.stopped then search
    else if search.visiting.contains path.components then search.close limits trail path
    else if search.visited.contains path.components then search
    else
      ((graph.successors path).foldl
        (fun search next => graph.explore limits fuel next (trail ++ [path]) search)
        (search.enter path)).leave path

/-- A bound on the length of a trail: each entry is a node or the end of an edge. -/
def exploreFuel (graph : Graph) : Nat :=
  graph.nodes.length + graph.edgeCount + 1

/-- The search over all files of a graph, in the order of their paths. -/
def searchCycles (graph : Graph) (limits : CycleLimits) : Search :=
  graph.nodes.foldl
    (fun search node =>
      if search.stopped || search.visited.contains node.path.components then search
      else graph.explore limits graph.exploreFuel node.path [] search)
    Search.start

/-- What a search over all files leaves behind, unless it is aborted. -/
def findCycles (graph : Graph) (limits : CycleLimits) : Except Abort Search :=
  let search := graph.searchCycles limits
  if search.overflowed then .error .overflow else .ok search

end Graph

end CodeFacts.Imports
