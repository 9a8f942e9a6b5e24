import CodeFacts.Proofs.Imports.Link

/-!
# Moving a graph

The paths of a graph can be written in another way, say from another directory. If that keeps their
order, and if every specifier names what it named before, written in the new way, then a graph is
linked in the same way before and after it is moved.
-/

namespace CodeFacts.Imports

namespace FileNode

/-- The node with all its paths written in another way. -/
def move (write : Path → Path) (node : FileNode) : FileNode where
  path := write node.path
  exportedNames := node.exportedNames
  importPaths := node.importPaths
  importsFrom := OrderedList.ofList Path.compare (node.importsFrom.map write)
  importedBy := OrderedList.ofList Path.compare (node.importedBy.map write)
  ordered :=
    { node.ordered with
      importsFrom := OrderedList.increasing_ofList _
      importedBy := OrderedList.increasing_ofList _ }

/-- All paths of a node are among some. -/
structure Within (among : Path → Prop) (node : FileNode) : Prop where
  path : among node.path
  importsFrom : ∀ target ∈ node.importsFrom, among target
  importedBy : ∀ importer ∈ node.importedBy, among importer

end FileNode

/-- The graph with all its paths written in another way. -/
def Graph.move (write : Path → Path) (root : Path) (graph : Graph) : Graph where
  root := root
  nodes := OrderedList.ofList FileNode.compare (graph.nodes.map (FileNode.move write))
  ordered := OrderedList.increasing_ofList _

section Order

variable {among : Path → Prop} {write : Path → Path}
  (keeps : ∀ first second, among first → among second →
    (write first).compare (write second) = first.compare second)

include keeps

theorem components_write_iff {first second : Path} (first_mem : among first)
    (second_mem : among second) :
    (write first).components = (write second).components ↔
      first.components = second.components := by
  rw [← Path.isKey_components, ← Path.isKey_components, keeps first second first_mem second_mem]

/-- Paths that are written in another way and keep their order stay in order. -/
theorem ofList_map_write {paths : List Path} (increasing : OrderedList.Increasing Path.compare paths)
    (paths_among : ∀ path ∈ paths, among path) :
    OrderedList.ofList Path.compare (paths.map write) = paths.map write := by
  apply OrderedList.Increasing.ofList_eq_self
  refine increasing.map ?_
  intro first first_mem second second_mem
  exact keeps first second (paths_among first first_mem) (paths_among second second_mem)

theorem FileNode.Within.move_importsFrom {node : FileNode} (within : node.Within among) :
    (node.move write).importsFrom = node.importsFrom.map write :=
  ofList_map_write keeps node.ordered.importsFrom within.importsFrom

theorem FileNode.Within.move_importedBy {node : FileNode} (within : node.Within among) :
    (node.move write).importedBy = node.importedBy.map write :=
  ofList_map_write keeps node.ordered.importedBy within.importedBy

omit keeps in
theorem FileNode.Within.record {node : FileNode} (within : node.Within among) {edge : Path × Path}
    (source : among edge.1) (target : among edge.2) : (node.record edge).Within among := by
  refine ⟨?_, ?_, ?_⟩
  · rw [FileNode.record_path]
    exact within.path
  · intro other other_mem
    rw [FileNode.record_importsFrom] at other_mem
    split at other_mem
    · rcases OrderedList.mem_of_mem_insertNew other_mem with rfl | old
      · exact target
      · exact within.importsFrom other old
    · exact within.importsFrom other other_mem
  · intro other other_mem
    rw [FileNode.record_importedBy] at other_mem
    split at other_mem
    · rcases OrderedList.mem_of_mem_insertNew other_mem with rfl | old
      · exact source
      · exact within.importedBy other old
    · exact within.importedBy other other_mem

/-- Recording an edge at a node, and then moving both, is moving first. -/
theorem FileNode.Within.record_move {node : FileNode} (within : node.Within among)
    {edge : Path × Path} (source : among edge.1) (target : among edge.2) :
    (node.move write).record (edge.map write write) = (node.record edge).move write := by
  have recorded := within.record source target
  have atSource : (node.move write).location = (edge.map write write).1.components ↔
      node.location = edge.1.components := components_write_iff keeps within.path source
  have atTarget : (node.move write).location = (edge.map write write).2.components ↔
      node.location = edge.2.components := components_write_iff keeps within.path target
  have imports : OrderedList.insertNew Path.compare (write edge.2) (node.importsFrom.map write) =
      (OrderedList.insertNew Path.compare edge.2 node.importsFrom).map write :=
    OrderedList.insertNew_map fun other other_mem =>
      keeps _ _ target (within.importsFrom other other_mem)
  have importers : OrderedList.insertNew Path.compare (write edge.1) (node.importedBy.map write) =
      (OrderedList.insertNew Path.compare edge.1 node.importedBy).map write :=
    OrderedList.insertNew_map fun other other_mem =>
      keeps _ _ source (within.importedBy other other_mem)
  apply FileNode.ext
  · simp [FileNode.move]
  · simp [FileNode.move]
  · simp [FileNode.move]
  · rw [FileNode.record_importsFrom, recorded.move_importsFrom keeps, FileNode.record_importsFrom,
      within.move_importsFrom keeps, apply_ite (List.map write)]
    simp only [atSource, Prod.map_snd, imports]
  · rw [FileNode.record_importedBy, recorded.move_importedBy keeps, FileNode.record_importedBy,
      within.move_importedBy keeps, apply_ite (List.map write)]
    simp only [atTarget, Prod.map_fst, importers]

theorem FileNode.Within.foldl_record_move {node : FileNode} (within : node.Within among)
    {edges : List (Path × Path)} (ends : ∀ edge ∈ edges, among edge.1 ∧ among edge.2) :
    (edges.map (Prod.map write write)).foldl FileNode.record (node.move write) =
      (edges.foldl FileNode.record node).move write := by
  induction edges generalizing node with
  | nil => rfl
  | cons edge rest ih =>
      rw [List.forall_mem_cons] at ends
      rw [List.map_cons, List.foldl_cons, List.foldl_cons,
        within.record_move keeps ends.1.1 ends.1.2]
      exact ih (within.record ends.1.1 ends.1.2) ends.2

namespace Graph

theorem move_nodes {graph : Graph} (graph_among : ∀ node ∈ graph.nodes, among node.path)
    (root : Path) : (graph.move write root).nodes = graph.nodes.map (FileNode.move write) := by
  apply OrderedList.Increasing.ofList_eq_self
  refine graph.ordered.map ?_
  intro first first_mem second second_mem
  exact keeps _ _ (graph_among first first_mem) (graph_among second second_mem)

/-- Putting nodes into a graph one by one, and then moving it, is moving the nodes first. -/
theorem foldl_insert_move {root : Path} {nodes : List FileNode} {graph : Graph}
    (graph_among : ∀ node ∈ graph.nodes, among node.path)
    (nodes_among : ∀ node ∈ nodes, among node.path) :
    (nodes.map (FileNode.move write)).foldl insert (graph.move write root) =
      (nodes.foldl insert graph).move write root := by
  induction nodes generalizing graph with
  | nil => rfl
  | cons node rest ih =>
      rw [List.forall_mem_cons] at nodes_among
      have inserted_among : ∀ other ∈ (graph.insert node).nodes, among other.path := by
        intro other other_mem
        rcases OrderedList.mem_of_mem_insertOver other_mem with rfl | old
        · exact nodes_among.1
        · exact graph_among other old
      have step : (graph.move write root).insert (node.move write) =
          (graph.insert node).move write root := by
        refine Graph.ext rfl ?_
        rw [move_nodes keeps inserted_among]
        change OrderedList.insertOver _ _ (graph.move write root).nodes = _
        rw [move_nodes keeps graph_among]
        refine OrderedList.insertOver_map ?_
        intro other other_mem
        exact keeps _ _ nodes_among.1 (graph_among other other_mem)
      rw [List.map_cons, List.foldl_cons, List.foldl_cons, step]
      exact ih inserted_among nodes_among.2

section Link

variable {graph : Graph} {root : Path}
  (resolves : ∀ node ∈ graph.nodes, ∀ specifier ∈ node.importPaths,
    resolveAmong? (graph.move write root).locations (write node.path) specifier =
      (resolveAmong? graph.locations node.path specifier).map write)
  (targets : ∀ node ∈ graph.nodes, ∀ specifier ∈ node.importPaths, ∀ target,
    resolveAmong? graph.locations node.path specifier = some target → among target)
  (within : ∀ node ∈ graph.nodes, node.Within among)

include resolves targets within

theorem resolvedEdges_move {node : FileNode} (node_mem : node ∈ graph.nodes) :
    resolvedEdges (graph.move write root).locations (node.move write) =
      (resolvedEdges graph.locations node).map (Prod.map write write) := by
  have found : node.importPaths.filterMap
      (resolveAmong? (graph.move write root).locations (write node.path)) =
        (node.importPaths.filterMap (resolveAmong? graph.locations node.path)).map write := by
    rw [List.map_filterMap]
    exact List.filterMap_congr fun specifier specifier_mem =>
      resolves node node_mem specifier specifier_mem
  unfold resolvedEdges
  simp only [FileNode.move]
  rw [found, List.filter_map, List.map_map, List.map_map]
  refine congrArg (List.map _) (List.filter_congr ?_)
  intro target target_mem
  rcases List.mem_filterMap.mp target_mem with ⟨specifier, specifier_mem, names⟩
  have target_among := targets node node_mem specifier specifier_mem target names
  rw [Function.comp_apply, Path.same, Path.same]
  congr 1
  rw [Bool.eq_iff_iff, beq_iff_eq, beq_iff_eq]
  exact components_write_iff keeps target_among (within node node_mem).path

theorem resolved_move :
    (graph.move write root).resolved = graph.resolved.map (Prod.map write write) := by
  unfold resolved
  rw [List.map_flatMap, move_nodes keeps (fun node node_mem => (within node node_mem).path) root,
    List.flatMap_map]
  refine List.flatMap_congr ?_
  intro node node_mem
  exact resolvedEdges_move keeps resolves targets within node_mem

/-- A graph is linked in the same way before and after it is moved. -/
theorem link_move : (graph.move write root).link = graph.link.move write root := by
  have ends : ∀ edge ∈ graph.resolved, among edge.1 ∧ among edge.2 := by
    rintro ⟨source, target⟩ edge_mem
    rcases (graph.mem_resolved_iff source target).mp edge_mem with
      ⟨node, node_mem, rfl, -, specifier, specifier_mem, names⟩
    exact ⟨(within node node_mem).path, targets node node_mem specifier specifier_mem target names⟩
  have graph_among : ∀ node ∈ graph.nodes, among node.path :=
    fun node node_mem => (within node node_mem).path
  have linked_among : ∀ linked ∈ graph.link.nodes, among linked.path := by
    intro linked linked_mem
    rcases (graph.mem_link_nodes_iff linked).mp linked_mem with ⟨node, node_mem, rfl⟩
    rw [(node.foldl_record_fixed graph.resolved).1]
    exact graph_among node node_mem
  refine Graph.ext (link_root _) ?_
  rw [link_nodes, resolved_move keeps resolves targets within, move_nodes keeps graph_among,
    move_nodes keeps linked_among, link_nodes, List.map_map, List.map_map]
  refine List.map_congr_left ?_
  intro node node_mem
  exact (within node node_mem).foldl_record_move keeps ends

end Link

end Graph

end Order

end CodeFacts.Imports
