import CodeFacts.Proofs.Imports.Nodes

/-!
# Linking builds the resolved import relation

Linking adds to the files that a node imports exactly those that its specifiers name, itself
excepted, and to the files that import a node exactly those whose specifiers name it. Nothing else
changes. It follows that the two sides of the relation stay inverse to each other, that linking
invents no import of a file by itself and no import of a file that is not there, and that linking
again changes nothing.

The edges are found before any of them is recorded, and recording them changes neither the paths
nor the specifiers of the nodes. So every node can be followed on its own through all edges, and
the edges of the linked graph are those of the graph.
-/

namespace CodeFacts.Imports

namespace FileNode

/-- The node with an edge recorded, if the node is one of its ends. -/
def record (node : FileNode) (edge : Path × Path) : FileNode :=
  let location := node.location
  let node := if location == edge.1.components then node.addImport edge.2 else node
  if location == edge.2.components then node.addImporter edge.1 else node

@[simp]
theorem record_path (node : FileNode) (edge : Path × Path) :
    (node.record edge).path = node.path := by
  unfold record
  dsimp only
  split <;> split <;> rfl

@[simp]
theorem record_importPaths (node : FileNode) (edge : Path × Path) :
    (node.record edge).importPaths = node.importPaths := by
  unfold record
  dsimp only
  split <;> split <;> rfl

@[simp]
theorem record_exportedNames (node : FileNode) (edge : Path × Path) :
    (node.record edge).exportedNames = node.exportedNames := by
  unfold record
  dsimp only
  split <;> split <;> rfl

/-- An edge concerns the imports of its source only. -/
theorem record_importsFrom (node : FileNode) (edge : Path × Path) :
    (node.record edge).importsFrom =
      if node.location = edge.1.components then
        OrderedList.insertNew Path.compare edge.2 node.importsFrom
      else node.importsFrom := by
  unfold record
  by_cases source : node.location = edge.1.components
  · simp only [source, beq_self_eq_true, if_true]
    split <;> rfl
  · simp only [beq_iff_eq, source, if_false]
    split <;> rfl

/-- An edge concerns the importers of its target only. -/
theorem record_importedBy (node : FileNode) (edge : Path × Path) :
    (node.record edge).importedBy =
      if node.location = edge.2.components then
        OrderedList.insertNew Path.compare edge.1 node.importedBy
      else node.importedBy := by
  have importers : (if node.location == edge.1.components then node.addImport edge.2
      else node).importedBy = node.importedBy := by
    split <;> rfl
  unfold record
  dsimp only
  by_cases target : node.location = edge.2.components
  · rw [if_pos (by simpa using target), if_pos target]
    exact congrArg (OrderedList.insertNew Path.compare edge.1) importers
  · rw [if_neg (by simpa using target), if_neg target, importers]

/-- An edge that is recorded already changes nothing. -/
theorem record_eq_self {node : FileNode} {edge : Path × Path}
    (asImport : node.location = edge.1.components →
      edge.2.components ∈ node.importsFrom.map Path.components)
    (asImporter : node.location = edge.2.components →
      edge.1.components ∈ node.importedBy.map Path.components) :
    node.record edge = node := by
  have imports : (node.record edge).importsFrom = node.importsFrom := by
    rw [record_importsFrom]
    split
    · rename_i source
      exact node.ordered.importsFrom.insertNew_eq_self Path.isKey_components (asImport source)
    · rfl
  have importers : (node.record edge).importedBy = node.importedBy := by
    rw [record_importedBy]
    split
    · rename_i target
      exact node.ordered.importedBy.insertNew_eq_self Path.isKey_components (asImporter target)
    · rfl
  exact FileNode.ext (node.record_path edge) (node.record_exportedNames edge)
    (node.record_importPaths edge) imports importers

/-- Recording edges leaves what a node says about itself as it is. -/
theorem foldl_record_fixed (edges : List (Path × Path)) (node : FileNode) :
    (edges.foldl record node).path = node.path ∧
      (edges.foldl record node).importPaths = node.importPaths ∧
      (edges.foldl record node).exportedNames = node.exportedNames := by
  refine List.foldlRecOn (motive := fun recorded : FileNode => recorded.path = node.path ∧
    recorded.importPaths = node.importPaths ∧ recorded.exportedNames = node.exportedNames)
    edges record ⟨rfl, rfl, rfl⟩ ?_
  intro recorded fixed edge _
  simpa using fixed

/-- What a run over edges puts into one of the two sets of a node, `own` being the end of an edge at
which the set is, and `other` the end that is put in. -/
theorem mem_foldl_record {set : FileNode → List Path} {own other : Path × Path → Path}
    (step : ∀ (node : FileNode) (edge : Path × Path),
      set (node.record edge) =
        if node.location = (own edge).components then
          OrderedList.insertNew Path.compare (other edge) (set node)
        else set node)
    (edges : List (Path × Path)) (node : FileNode) (location : List Component) :
    location ∈ (set (edges.foldl record node)).map Path.components ↔
      location ∈ (set node).map Path.components ∨
        ∃ edge ∈ edges, (own edge).components = node.location ∧
          (other edge).components = location := by
  induction edges generalizing node with
  | nil => simp
  | cons edge rest ih =>
      have same : (node.record edge).location = node.location := by
        rw [FileNode.location, record_path, FileNode.location]
      rw [List.foldl_cons, ih, same, step]
      simp only [List.mem_cons, exists_eq_or_imp]
      split
      · rename_i here
        have added : ((own edge).components = node.location ∧
            (other edge).components = location) ↔ location = (other edge).components :=
          ⟨fun put => put.2.symm, fun names => ⟨here.symm, names.symm⟩⟩
        rw [OrderedList.mem_keys_insertNew Path.isKey_components, added, or_assoc, or_left_comm]
      · rename_i elsewhere
        have unchanged : ¬((own edge).components = node.location ∧
            (other edge).components = location) :=
          fun put => elsewhere put.1.symm
        rw [or_iff_right unchanged]

theorem mem_importsFrom_foldl_record (edges : List (Path × Path)) (node : FileNode)
    (location : List Component) :
    location ∈ (edges.foldl record node).importsFrom.map Path.components ↔
      location ∈ node.importsFrom.map Path.components ∨
        ∃ edge ∈ edges, edge.1.components = node.location ∧ edge.2.components = location :=
  mem_foldl_record record_importsFrom edges node location

theorem mem_importedBy_foldl_record (edges : List (Path × Path)) (node : FileNode)
    (location : List Component) :
    location ∈ (edges.foldl record node).importedBy.map Path.components ↔
      location ∈ node.importedBy.map Path.components ∨
        ∃ edge ∈ edges, edge.2.components = node.location ∧ edge.1.components = location :=
  mem_foldl_record record_importedBy edges node location

/-- The imports that a node ends up with are written as before or as in an edge. -/
theorem mem_of_mem_importsFrom_foldl_record {edges : List (Path × Path)} {node : FileNode}
    {target : Path} (target_mem : target ∈ (edges.foldl record node).importsFrom) :
    target ∈ node.importsFrom ∨
      ∃ edge ∈ edges, edge.1.components = node.location ∧ edge.2 = target := by
  induction edges generalizing node with
  | nil => exact Or.inl target_mem
  | cons edge rest ih =>
      have same : (node.record edge).location = node.location := by
        rw [FileNode.location, record_path, FileNode.location]
      rcases ih target_mem with earlier | ⟨other, other_mem, source, names⟩
      · rw [record_importsFrom] at earlier
        split at earlier
        · rename_i source
          rcases OrderedList.mem_of_mem_insertNew earlier with rfl | old
          · exact Or.inr ⟨edge, List.mem_cons_self, source.symm, rfl⟩
          · exact Or.inl old
        · exact Or.inl earlier
      · exact Or.inr ⟨other, List.mem_cons_of_mem edge other_mem, source.trans same, names⟩

/-- Edges that are all recorded already change nothing. -/
theorem foldl_record_eq_self {node : FileNode} {edges : List (Path × Path)}
    (asImport : ∀ edge ∈ edges, node.location = edge.1.components →
      edge.2.components ∈ node.importsFrom.map Path.components)
    (asImporter : ∀ edge ∈ edges, node.location = edge.2.components →
      edge.1.components ∈ node.importedBy.map Path.components) :
    edges.foldl FileNode.record node = node := by
  refine List.foldlRecOn (motive := fun recorded => recorded = node) edges FileNode.record rfl ?_
  rintro recorded rfl edge edge_mem
  exact record_eq_self (asImport edge edge_mem) (asImporter edge edge_mem)

end FileNode

namespace Graph

/-- One of the specifiers of a node names a file at a location, and the file is not the node's. -/
def Resolves (graph : Graph) (node : FileNode) (location : List Component) : Prop :=
  location ≠ node.location ∧
    ∃ specifier ∈ node.importPaths, ∃ target,
      graph.resolve? node.path specifier = some target ∧ target.components = location

/-- The edges that the specifiers of a graph give. -/
def resolved (graph : Graph) : List (Path × Path) :=
  graph.nodes.flatMap (resolvedEdges graph.locations)

theorem mem_resolved_iff (graph : Graph) (source target : Path) :
    (source, target) ∈ graph.resolved ↔
      ∃ node ∈ graph.nodes, node.path = source ∧ target.components ≠ node.location ∧
        ∃ specifier ∈ node.importPaths, graph.resolve? node.path specifier = some target := by
  simp only [resolved, resolvedEdges, List.mem_flatMap, List.mem_map, List.mem_filter,
    List.mem_filterMap, Prod.mk.injEq, Path.same, resolve?, FileNode.location]
  constructor
  · rintro ⟨node, node_mem, found, ⟨⟨specifier, specifier_mem, names⟩, other⟩, same, rfl⟩
    exact ⟨node, node_mem, same, by simpa using other, specifier, specifier_mem, names⟩
  · rintro ⟨node, node_mem, same, other, specifier, specifier_mem, names⟩
    exact ⟨node, node_mem, target, ⟨⟨specifier, specifier_mem, names⟩, by simpa using other⟩,
      same, rfl⟩

/-- A specifier names only files of the graph. -/
theorem contains_of_resolve? {graph : Graph} {importer target : Path} {specifier : String}
    (names : graph.resolve? importer specifier = some target) : target.components ∈ graph.locations := by
  unfold resolve? resolveAmong? at names
  split at names
  · have found := List.find?_some names
    simpa using found
  · simp at names

theorem addEdge_nodes (graph : Graph) (edge : Path × Path) :
    (graph.addEdge edge).nodes = graph.nodes.map fun node => node.record edge :=
  rfl

theorem foldl_addEdge (edges : List (Path × Path)) (graph : Graph) :
    (edges.foldl addEdge graph).root = graph.root ∧
      (edges.foldl addEdge graph).nodes =
        graph.nodes.map fun node => edges.foldl FileNode.record node := by
  induction edges generalizing graph with
  | nil => simp
  | cons edge rest ih =>
      rcases ih (graph.addEdge edge) with ⟨root, nodes⟩
      refine ⟨root, ?_⟩
      rw [List.foldl_cons, nodes, addEdge_nodes]
      simp [Function.comp_def]

theorem link_root (graph : Graph) : graph.link.root = graph.root :=
  (foldl_addEdge graph.resolved graph).1

/-- Linking follows every node through all edges. -/
theorem link_nodes (graph : Graph) :
    graph.link.nodes =
      graph.nodes.map fun node => graph.resolved.foldl FileNode.record node :=
  (foldl_addEdge graph.resolved graph).2

theorem mem_link_nodes_iff (graph : Graph) (linked : FileNode) :
    linked ∈ graph.link.nodes ↔
      ∃ node ∈ graph.nodes, graph.resolved.foldl FileNode.record node = linked := by
  rw [link_nodes, List.mem_map]

/-- How linking changes a node. -/
structure LinksNode (graph : Graph) (node linked : FileNode) : Prop where
  path : linked.path = node.path
  importPaths : linked.importPaths = node.importPaths
  exportedNames : linked.exportedNames = node.exportedNames
  /-- The files that the specifiers name are imported, beside those imported before. -/
  importsFrom : ∀ location, location ∈ linked.importsFrom.map Path.components ↔
    location ∈ node.importsFrom.map Path.components ∨ graph.Resolves node location
  /-- The files whose specifiers name the node are its importers, beside those it had before. -/
  importedBy : ∀ location, location ∈ linked.importedBy.map Path.components ↔
    location ∈ node.importedBy.map Path.components ∨
      ∃ importer ∈ graph.nodes, importer.location = location ∧
        graph.Resolves importer node.location
  /-- A new import is one of another file, and of one that is in the graph. -/
  added : ∀ target ∈ linked.importsFrom,
    target.components ∉ node.importsFrom.map Path.components →
      target.components ≠ linked.location ∧ graph.contains target = true

theorem Resolves.mem_locations {graph : Graph} {node : FileNode} {location : List Component}
    (resolves : graph.Resolves node location) : location ∈ graph.locations := by
  rcases resolves with ⟨-, specifier, -, target, names, rfl⟩
  exact contains_of_resolve? names

/-- The edges from a node are those that its own specifiers give. -/
theorem exists_resolved_iff {graph : Graph} {node : FileNode} (node_mem : node ∈ graph.nodes)
    (location : List Component) :
    (∃ edge ∈ graph.resolved, edge.1.components = node.location ∧
      edge.2.components = location) ↔ graph.Resolves node location := by
  constructor
  · rintro ⟨⟨source, target⟩, edge_mem, fromNode, rfl⟩
    rcases (graph.mem_resolved_iff source target).mp edge_mem with
      ⟨other, other_mem, rfl, differs, specifier, specifier_mem, names⟩
    obtain rfl := eq_of_location other_mem node_mem fromNode
    exact ⟨differs, specifier, specifier_mem, target, names, rfl⟩
  · rintro ⟨differs, specifier, specifier_mem, target, names, rfl⟩
    refine ⟨(node.path, target), ?_, rfl, rfl⟩
    exact (graph.mem_resolved_iff node.path target).mpr
      ⟨node, node_mem, rfl, differs, specifier, specifier_mem, names⟩

/-- The edges to a location come from the nodes with a specifier that names it. -/
theorem exists_resolved_to_iff (graph : Graph) (target source : List Component) :
    (∃ edge ∈ graph.resolved, edge.2.components = target ∧ edge.1.components = source) ↔
      ∃ importer ∈ graph.nodes, importer.location = source ∧ graph.Resolves importer target := by
  constructor
  · rintro ⟨⟨from', to'⟩, edge_mem, rfl, rfl⟩
    rcases (graph.mem_resolved_iff from' to').mp edge_mem with
      ⟨importer, importer_mem, rfl, differs, specifier, specifier_mem, names⟩
    exact ⟨importer, importer_mem, rfl, differs, specifier, specifier_mem, to', names, rfl⟩
  · rintro ⟨importer, importer_mem, rfl, differs, specifier, specifier_mem, to', names, rfl⟩
    refine ⟨(importer.path, to'), ?_, rfl, rfl⟩
    exact (graph.mem_resolved_iff importer.path to').mpr
      ⟨importer, importer_mem, rfl, differs, specifier, specifier_mem, names⟩

theorem linksNode {graph : Graph} {node : FileNode} (node_mem : node ∈ graph.nodes) :
    graph.LinksNode node (graph.resolved.foldl FileNode.record node) := by
  rcases node.foldl_record_fixed graph.resolved with ⟨path, importPaths, exportedNames⟩
  have importsFrom : ∀ location,
      location ∈ (graph.resolved.foldl FileNode.record node).importsFrom.map Path.components ↔
        location ∈ node.importsFrom.map Path.components ∨ graph.Resolves node location := by
    intro location
    rw [FileNode.mem_importsFrom_foldl_record, exists_resolved_iff node_mem]
  refine ⟨path, importPaths, exportedNames, importsFrom, ?_, ?_⟩
  · intro location
    rw [FileNode.mem_importedBy_foldl_record, exists_resolved_to_iff]
  · intro target target_mem fresh
    have resolves := ((importsFrom _).mp (List.mem_map_of_mem target_mem)).resolve_left fresh
    rw [FileNode.location, path, contains_iff_mem_locations]
    exact ⟨resolves.1, resolves.mem_locations⟩

/-- The locations of a graph are not changed by linking. -/
theorem locations_link (graph : Graph) : graph.link.locations = graph.locations := by
  rw [locations, link_nodes, locations, List.map_map]
  apply List.map_congr_left
  intro node _
  simp [(node.foldl_record_fixed graph.resolved).1]

theorem resolved_link (graph : Graph) : graph.link.resolved = graph.resolved := by
  rw [resolved, locations_link, link_nodes, List.flatMap_map]
  apply List.flatMap_congr
  intro node _
  rcases node.foldl_record_fixed graph.resolved with ⟨path, importPaths, -⟩
  simp only [resolvedEdges]
  rw [path, importPaths]

/-- Linking again changes nothing. -/
theorem link_link (graph : Graph) : graph.link.link = graph.link := by
  have kept : ∀ linked ∈ graph.link.nodes,
      graph.resolved.foldl FileNode.record linked = linked := by
    intro linked linked_mem
    apply FileNode.foldl_record_eq_self
    all_goals
      rcases (graph.mem_link_nodes_iff linked).mp linked_mem with ⟨node, -, rfl⟩
      intro edge edge_mem here
      rw [FileNode.location, (node.foldl_record_fixed graph.resolved).1] at here
    · rw [FileNode.mem_importsFrom_foldl_record]
      exact Or.inr ⟨edge, edge_mem, here.symm, rfl⟩
    · rw [FileNode.mem_importedBy_foldl_record]
      exact Or.inr ⟨edge, edge_mem, here.symm, rfl⟩
  apply Graph.ext (link_root graph.link)
  rw [link_nodes graph.link, resolved_link, List.map_congr_left kept, List.map_id']

/-- The two sides of the import relation are inverse to each other, and all ends are nodes. -/
structure IsMutual (graph : Graph) : Prop where
  imported : ∀ node ∈ graph.nodes, ∀ target ∈ node.importsFrom,
    ∃ other ∈ graph.nodes, other.location = target.components ∧
      node.location ∈ other.importedBy.map Path.components
  importer : ∀ node ∈ graph.nodes, ∀ source ∈ node.importedBy,
    ∃ other ∈ graph.nodes, other.location = source.components ∧
      node.location ∈ other.importsFrom.map Path.components

theorem LinksNode.location {graph : Graph} {node linked : FileNode}
    (links : graph.LinksNode node linked) : linked.location = node.location := by
  rw [FileNode.location, links.path, FileNode.location]

/-- Each edge is recorded at both of its ends, so the sides stay inverse to each other. -/
theorem IsMutual.link {graph : Graph} (inverse : graph.IsMutual) : graph.link.IsMutual := by
  refine ⟨?_, ?_⟩
  · intro linked linked_mem target target_mem
    rcases (graph.mem_link_nodes_iff linked).mp linked_mem with ⟨node, node_mem, rfl⟩
    have links := linksNode node_mem
    rw [links.location]
    rcases (links.importsFrom _).mp (List.mem_map_of_mem target_mem) with old | resolves
    · rcases List.mem_map.mp old with ⟨original, original_mem, same⟩
      rcases inverse.imported node node_mem original original_mem with
        ⟨other, other_mem, place, back⟩
      have otherLinks := linksNode other_mem
      refine ⟨_, (graph.mem_link_nodes_iff _).mpr ⟨other, other_mem, rfl⟩, ?_, ?_⟩
      · rw [otherLinks.location, place, same]
      · exact (otherLinks.importedBy _).mpr (Or.inl back)
    · rcases List.mem_map.mp resolves.mem_locations with ⟨other, other_mem, place⟩
      have otherLinks := linksNode other_mem
      refine ⟨_, (graph.mem_link_nodes_iff _).mpr ⟨other, other_mem, rfl⟩, ?_, ?_⟩
      · rw [otherLinks.location]
        exact place
      · rw [← place] at resolves
        exact (otherLinks.importedBy _).mpr (Or.inr ⟨node, node_mem, rfl, resolves⟩)
  · intro linked linked_mem source source_mem
    rcases (graph.mem_link_nodes_iff linked).mp linked_mem with ⟨node, node_mem, rfl⟩
    have links := linksNode node_mem
    rw [links.location]
    rcases (links.importedBy _).mp (List.mem_map_of_mem source_mem) with
      old | ⟨importer, importer_mem, place, resolves⟩
    · rcases List.mem_map.mp old with ⟨original, original_mem, same⟩
      rcases inverse.importer node node_mem original original_mem with
        ⟨other, other_mem, place, back⟩
      have otherLinks := linksNode other_mem
      refine ⟨_, (graph.mem_link_nodes_iff _).mpr ⟨other, other_mem, rfl⟩, ?_, ?_⟩
      · rw [otherLinks.location, place, same]
      · exact (otherLinks.importsFrom _).mpr (Or.inl back)
    · have importerLinks := linksNode importer_mem
      refine ⟨_, (graph.mem_link_nodes_iff _).mpr ⟨importer, importer_mem, rfl⟩, ?_, ?_⟩
      · rw [importerLinks.location, place]
      · exact (importerLinks.importsFrom _).mpr (Or.inr resolves)

/-- Linking adds exactly the imports that specifiers name, on both sides, and nothing else. -/
theorem link_adds_exactly_resolved_imports (graph : Graph) :
    graph.link.root = graph.root ∧
      List.Forall₂ graph.LinksNode graph.nodes graph.link.nodes ∧
      (graph.IsMutual → graph.link.IsMutual) ∧
      graph.link.link = graph.link := by
  refine ⟨graph.link_root, ?_, IsMutual.link, graph.link_link⟩
  rw [link_nodes, List.forall₂_map_right_iff, List.forall₂_same]
  intro node node_mem
  exact linksNode node_mem

/-- Two files that import each other, one of them itself as well and a package, before linking. -/
def unlinkedPair : Graph where
  root := ⟨"/p"⟩
  nodes :=
    [{ path := ⟨"/p/a.ts"⟩, exportedNames := [], importPaths := ["./a", "./b", "react"],
        importsFrom := [], importedBy := [] },
      { path := ⟨"/p/b.ts"⟩, exportedNames := ["b"], importPaths := ["./a.js"],
        importsFrom := [], importedBy := [] }]

theorem link_adds_imports_to_unlinkedPair :
    unlinkedPair.link.edgeCount = 2 ∧
      List.Forall₂ unlinkedPair.LinksNode unlinkedPair.nodes unlinkedPair.link.nodes ∧
      unlinkedPair.link.IsMutual ∧ unlinkedPair.link.link = unlinkedPair.link := by
  have linking := link_adds_exactly_resolved_imports unlinkedPair
  have inverse : unlinkedPair.IsMutual := ⟨by simp [unlinkedPair], by simp [unlinkedPair]⟩
  exact ⟨by decide, linking.2.1, linking.2.2.1 inverse, linking.2.2.2⟩

end Graph

end CodeFacts.Imports
