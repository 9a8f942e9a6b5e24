import CodeFacts.Imports.Graph
import CodeFacts.Proofs.OrderedList
import Mathlib.Data.List.Nodup

/-!
# Nodes of dependency graphs

The nodes of a graph are in the order of their paths, so what a path means belongs to one node at
most, and looking a path up finds that node.
-/

namespace CodeFacts.Imports

namespace FileNode

/-- Where the file of a node is. -/
def location (node : FileNode) : List Component :=
  node.path.components

theorem isKey_location : OrderedList.IsKey FileNode.compare FileNode.location :=
  fun first second => Path.isKey_components first.path second.path

/-- The node of a file of which only its imports are known. -/
def ofImports (path : Path) (imports : List Path) : FileNode where
  path := path
  exportedNames := []
  importPaths := []
  importsFrom := OrderedList.ofList Path.compare imports
  importedBy := []
  ordered :=
    { exportedNames := OrderedList.increasing_nil
      importPaths := OrderedList.increasing_nil
      importsFrom := OrderedList.increasing_ofList imports
      importedBy := OrderedList.increasing_nil }

end FileNode

namespace Graph

/-- Whether a path is a node is decided by what it means. -/
theorem contains_iff_mem_locations (graph : Graph) (path : Path) :
    graph.contains path = true ↔ path.components ∈ graph.locations := by
  simp [contains, get?, locations]

/-- A location belongs to one node. -/
theorem eq_of_location {graph : Graph} {first second : FileNode} (first_mem : first ∈ graph.nodes)
    (second_mem : second ∈ graph.nodes) (same : first.location = second.location) :
    first = second :=
  List.inj_on_of_nodup_map (graph.ordered.nodup_keys FileNode.isKey_location)
    first_mem second_mem same

theorem get?_eq_some_iff (graph : Graph) (path : Path) (node : FileNode) :
    graph.get? path = some node ↔ node ∈ graph.nodes ∧ node.location = path.components := by
  have found_here {found : FileNode} (finds : graph.get? path = some found) :
      found ∈ graph.nodes ∧ found.location = path.components := by
    have here := List.find?_some finds
    exact ⟨List.mem_of_find?_eq_some finds, eq_of_beq here⟩
  constructor
  · exact found_here
  · rintro ⟨node_mem, here⟩
    cases finds : graph.get? path with
    | none =>
        have missing := List.find?_eq_none.mp finds node node_mem
        exact absurd (beq_iff_eq.mpr here) missing
    | some other =>
        rcases found_here finds with ⟨other_mem, other_here⟩
        rw [eq_of_location other_mem node_mem (other_here.trans here.symm)]

end Graph

end CodeFacts.Imports
