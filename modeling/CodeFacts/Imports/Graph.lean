import CodeFacts.Path.Normal
import CodeFacts.Path.Order
import CodeFacts.Path.Relative

/-!
# Dependency graphs

The nodes of a dependency graph are files, in the order of their paths; an edge leads from a file
to a file that it imports. A relative specifier is resolved against the directory of the importing
file: first as it is written, then with each module extension in place of its own, then as a
directory with an index file. Package names are not resolved.

`link` turns specifiers into edges and records each edge at both of its ends.

Nodes and the sets of each node carry the proof that they are in order, so a graph has one node for
each file and a node names each file once.
-/

namespace CodeFacts.Imports

/-- The extensions tried for a specifier, in order of preference. -/
def moduleExtensions : List String :=
  ["ts", "tsx", "js", "jsx", "mjs", "cjs", "mts", "cts"]

/-- The four sets of a node are kept in order. -/
structure SetsOrdered (exportedNames importPaths : List String)
    (importsFrom importedBy : List Path) : Prop where
  exportedNames : OrderedList.Increasing Ord.compare exportedNames
  importPaths : OrderedList.Increasing Ord.compare importPaths
  importsFrom : OrderedList.Increasing Path.compare importsFrom
  importedBy : OrderedList.Increasing Path.compare importedBy

theorem setsOrdered_iff (exportedNames importPaths : List String)
    (importsFrom importedBy : List Path) :
    SetsOrdered exportedNames importPaths importsFrom importedBy ↔
      OrderedList.Increasing Ord.compare exportedNames ∧
        OrderedList.Increasing Ord.compare importPaths ∧
        OrderedList.Increasing Path.compare importsFrom ∧
        OrderedList.Increasing Path.compare importedBy :=
  ⟨fun ⟨names, specifiers, imports, importers⟩ => ⟨names, specifiers, imports, importers⟩,
    fun ⟨names, specifiers, imports, importers⟩ => ⟨names, specifiers, imports, importers⟩⟩

instance (exportedNames importPaths : List String) (importsFrom importedBy : List Path) :
    Decidable (SetsOrdered exportedNames importPaths importsFrom importedBy) :=
  decidable_of_iff _ (setsOrdered_iff exportedNames importPaths importsFrom importedBy).symm

/-- A file of a dependency graph. -/
@[ext]
structure FileNode where
  path : Path
  exportedNames : List String
  /-- Specifiers as they are written. -/
  importPaths : List String
  /-- The files that this file imports. -/
  importsFrom : List Path
  /-- The files that import this file. -/
  importedBy : List Path
  ordered : SetsOrdered exportedNames importPaths importsFrom importedBy := by decide
deriving DecidableEq, Repr

namespace FileNode

instance : Inhabited FileNode :=
  ⟨{ path := default, exportedNames := [], importPaths := [], importsFrom := [], importedBy := [] }⟩

/-- The order of nodes is that of their paths. -/
def compare (first second : FileNode) : Ordering :=
  first.path.compare second.path

instance : Std.TransCmp FileNode.compare where
  eq_swap := by
    intro first second
    change first.path.compare second.path = _
    exact Std.OrientedCmp.eq_swap
  isLE_trans := by
    intro first second third before after
    change (first.path.compare third.path).isLE = true
    exact Std.TransCmp.isLE_trans before after

/-- The node with one more imported file. -/
def addImport (node : FileNode) (target : Path) : FileNode :=
  { node with
    importsFrom := OrderedList.insertNew Path.compare target node.importsFrom
    ordered := { node.ordered with importsFrom := node.ordered.importsFrom.insertNew target } }

/-- The node with one more importing file. -/
def addImporter (node : FileNode) (importer : Path) : FileNode :=
  { node with
    importedBy := OrderedList.insertNew Path.compare importer node.importedBy
    ordered := { node.ordered with importedBy := node.ordered.importedBy.insertNew importer } }

/-- Nodes stay in order when each of them keeps its path. -/
theorem increasing_map {nodes : List FileNode}
    (increasing : OrderedList.Increasing FileNode.compare nodes) {change : FileNode → FileNode}
    (same_path : ∀ node, (change node).path = node.path) :
    OrderedList.Increasing FileNode.compare (nodes.map change) := by
  rw [OrderedList.Increasing, List.pairwise_map]
  refine increasing.imp ?_
  intro first second less
  unfold FileNode.compare
  rw [same_path, same_path]
  exact less

end FileNode

/-- A dependency graph below a root directory. -/
@[ext]
structure Graph where
  root : Path
  nodes : List FileNode
  /-- The files are in the order of their paths, each once. -/
  ordered : OrderedList.Increasing FileNode.compare nodes := by decide
deriving DecidableEq, Repr

namespace Graph

/-- The graph without files. -/
def empty (root : Path) : Graph where
  root := root
  nodes := []

instance : Inhabited Graph :=
  ⟨empty default⟩

/-- The graph with a node; a node with the same path is replaced. -/
def insert (graph : Graph) (node : FileNode) : Graph :=
  { graph with
    nodes := OrderedList.insertOver FileNode.compare node graph.nodes
    ordered := graph.ordered.insertOver node }

/-- The node of a path. -/
def get? (graph : Graph) (path : Path) : Option FileNode :=
  let wanted := path.components
  graph.nodes.find? fun node => node.path.components == wanted

/-- Whether the graph has a node with a path. -/
def contains (graph : Graph) (path : Path) : Bool :=
  (graph.get? path).isSome

/-- What the paths of the graph mean. -/
def locations (graph : Graph) : List (List Component) :=
  graph.nodes.map fun node => node.path.components

/-- The number of edges. -/
def edgeCount (graph : Graph) : Nat :=
  graph.nodes.foldl (fun count node => count + node.importsFrom.length) 0

/-- A path with the module extension that it has cut off. -/
def stem (path : Path) : Path :=
  match path.extension? with
  | none => path
  | some extension => if moduleExtensions.contains extension then path.withoutExtension else path

/-- The paths that a specifier may name, in order of preference. -/
def candidates (importer : Path) (specifier : String) : List Path :=
  let directory := importer.parent?.getD ⟨""⟩
  let written := (directory.join ⟨specifier⟩).normalize
  written ::
    (moduleExtensions.map fun extension => (stem written).append ("." ++ extension)) ++
    (moduleExtensions.map fun extension => written.join ⟨"index." ++ extension⟩)

/-- Whether a specifier names a file and no package. -/
def isFileSpecifier (specifier : String) : Bool :=
  specifier.toList.head? == some '.' || specifier.toList.head? == some '/'

/-- The file that a specifier names, among files of which it is known where they are. -/
def resolveAmong? (locations : List (List Component)) (importer : Path) (specifier : String) :
    Option Path :=
  if isFileSpecifier specifier then
    (candidates importer specifier).find? fun path => locations.contains path.components
  else none

/-- The file of the graph that a specifier names. -/
def resolve? (graph : Graph) (importer : Path) (specifier : String) : Option Path :=
  resolveAmong? graph.locations importer specifier

/-- The edges that the specifiers of a node give; a file does not import itself. -/
def resolvedEdges (locations : List (List Component)) (node : FileNode) : List (Path × Path) :=
  ((node.importPaths.filterMap (resolveAmong? locations node.path)).filter fun target =>
    !target.same node.path).map fun target => (node.path, target)

/-- The graph with an edge recorded at both ends. -/
def addEdge (graph : Graph) (edge : Path × Path) : Graph :=
  let source := edge.1.components
  let target := edge.2.components
  { graph with
    nodes := graph.nodes.map fun node =>
      let location := node.path.components
      let node := if location == source then node.addImport edge.2 else node
      if location == target then node.addImporter edge.1 else node
    ordered := FileNode.increasing_map graph.ordered fun node => by
      dsimp only
      split <;> split <;> rfl }

/-- The graph with an edge for every specifier that names one of its files. -/
def link (graph : Graph) : Graph :=
  (graph.nodes.flatMap (resolvedEdges graph.locations)).foldl addEdge graph

/-- How a path is displayed. -/
def display (graph : Graph) (path : Path) : String :=
  Path.display graph.root path

end Graph

end CodeFacts.Imports
