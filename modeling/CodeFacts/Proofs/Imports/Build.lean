import CodeFacts.Imports.Build
import CodeFacts.Proofs.FileSystem.Walk
import CodeFacts.Proofs.Imports.Link
import CodeFacts.Proofs.Imports.Trail

/-!
# The graph of a directory

The graph of a directory has one node for every collected file that can be read, and an edge only
where the source of a file holds a specifier that names the other. Collected files and the paths
that specifiers may name are all written tidily, so both ends of an edge are written as the
collected files are.
-/

namespace CodeFacts.Imports

namespace Graph

/-- What a specifier may name is written tidily. -/
theorem isTidy_of_mem_candidates {importer target : Path} {specifier : String}
    (target_mem : target ∈ candidates importer specifier) : target.IsTidy := by
  unfold candidates at target_mem
  dsimp only at target_mem
  generalize ((importer.parent?.getD ⟨""⟩).join ⟨specifier⟩) = named at target_mem
  have tidy := named.isTidy_normalize
  have inside : ∀ segment ∈ (stem named.normalize).segments.dropLast.tail,
      Path.isIdle segment = false := by
    unfold stem
    split
    · exact tidy.busy_inside
    · split
      · rw [tidy.dropLast_withoutExtension]
        exact tidy.busy_inside
      · exact tidy.busy_inside
  have suffixes : ∀ extension ∈ moduleExtensions,
      '/' ∉ ("." ++ extension).toList ∧ 2 ≤ ("." ++ extension).toList.length := by decide
  have indexNames : ∀ extension ∈ moduleExtensions, Path.IsName ("index." ++ extension) := by
    decide
  rw [List.cons_append, List.mem_cons, List.mem_append, List.mem_map, List.mem_map] at target_mem
  rcases target_mem with rfl | ⟨extension, extension_mem, rfl⟩ | ⟨extension, extension_mem, rfl⟩
  · exact tidy
  · rcases suffixes extension extension_mem with ⟨noSlash, long⟩
    exact Path.isTidy_append inside noSlash long
  · exact tidy.join (indexNames extension extension_mem)

theorem isTidy_of_resolve? {graph : Graph} {importer target : Path} {specifier : String}
    (names : graph.resolve? importer specifier = some target) : target.IsTidy := by
  unfold resolve? resolveAmong? at names
  split at names
  · exact isTidy_of_mem_candidates (List.mem_of_find?_eq_some names)
  · simp at names

/-- What a specifier names depends only on the places of the files. -/
theorem resolveAmong?_congr {first second : List (List Component)}
    (same : ∀ location, location ∈ first ↔ location ∈ second) (importer : Path)
    (specifier : String) :
    resolveAmong? first importer specifier = resolveAmong? second importer specifier := by
  have contains : ∀ location, first.contains location = second.contains location := by
    intro location
    rw [Bool.eq_iff_iff, List.contains_iff_mem, List.contains_iff_mem]
    exact same location
  simp only [resolveAmong?, contains]

/-- An edge of a linked graph that had none before comes from a specifier. -/
theorem exists_resolve?_of_lists_link {graph : Graph}
    (bare : ∀ node ∈ graph.nodes, node.importsFrom = []) {source target : Path}
    (lists : graph.link.Lists source target) :
    ∃ node ∈ graph.nodes, node.location = source.components ∧
      target.components ≠ source.components ∧
      ∃ specifier ∈ node.importPaths, graph.resolve? node.path specifier = some target := by
  rcases lists with ⟨linked, linked_mem, place, target_mem⟩
  rcases (graph.mem_link_nodes_iff linked).mp linked_mem with ⟨node, node_mem, rfl⟩
  rw [FileNode.location, (node.foldl_record_fixed graph.resolved).1] at place
  rcases FileNode.mem_of_mem_importsFrom_foldl_record target_mem with
    old | ⟨edge, edge_mem, fromNode, rfl⟩
  · rw [bare node node_mem] at old
    simp at old
  · rcases (graph.mem_resolved_iff edge.1 edge.2).mp edge_mem with
      ⟨other, other_mem, same, differs, specifier, specifier_mem, names⟩
    have other_place : other.location = source.components := by
      rw [FileNode.location, same, fromNode]
      exact place
    exact ⟨other, other_mem, other_place, other_place ▸ differs, specifier, specifier_mem, names⟩

theorem foldl_insert_nodes (nodes : List FileNode) (graph : Graph) :
    (nodes.foldl insert graph).nodes =
      nodes.foldl (fun ordered node => OrderedList.insertOver FileNode.compare node ordered)
        graph.nodes := by
  induction nodes generalizing graph with
  | nil => rfl
  | cons node rest ih => exact ih (graph.insert node)

theorem foldl_insert_root (nodes : List FileNode) (graph : Graph) :
    (nodes.foldl insert graph).root = graph.root :=
  List.foldlRecOn (motive := fun built : Graph => built.root = graph.root) nodes insert rfl
    fun _ kept _ _ => kept

/-- Nodes of different files are all put into the graph. -/
theorem foldl_insert_perm {nodes : List FileNode} (root : Path)
    (distinct : (nodes.map FileNode.location).Nodup) :
    (nodes.foldl insert (empty root)).nodes.Perm nodes := by
  have fresh : (nodes.map FileNode.location ++ (empty root).nodes.map FileNode.location).Nodup := by
    simpa [empty] using distinct
  rw [foldl_insert_nodes]
  simpa [empty] using OrderedList.foldl_insertOver_perm FileNode.isKey_location fresh

end Graph

/-- The source of a file holds a specifier that names another one, among given files. -/
def FileImports (files : FileSystem) (among : List Path) (source target : Path) : Prop :=
  ∃ language content, Language.ofPath? source = some language ∧ files.read source = .ok content ∧
    ∃ spec ∈ (moduleFacts language content.tree).imports,
      Graph.resolveAmong? (among.map Path.components) source spec.specifier = some target

section Reading

variable {files : FileSystem}

/-- The node of a file says what the source of the file says. -/
theorem exists_of_readNode? {path : Path} {node : FileNode}
    (known : readNode? files path = some node) :
    ∃ language content, Language.ofPath? path = some language ∧ files.read path = .ok content ∧
      node = fileNode path (moduleFacts language content.tree) := by
  unfold readNode? at known
  split at known
  · rename_i language content isLanguage isRead
    exact ⟨language, content, isLanguage, isRead, (Option.some.inj known).symm⟩
  · simp at known

theorem isSome_readNode? (files : FileSystem) {path : Path} {language : Language}
    (known : Language.ofPath? path = some language) :
    (readNode? files path).isSome = files.canRead path := by
  rw [Bool.eq_iff_iff, FileSystem.canRead_iff]
  unfold readNode?
  rw [known]
  cases files.read path with
  | error fault => simp
  | ok content => simp

/-- The files that can be read have nodes, in the same order. -/
theorem map_path_filterMap_readNode? (files : FileSystem) {collected : List Path}
    (known : ∀ path ∈ collected, ∃ language, Language.ofPath? path = some language) :
    (collected.filterMap (readNode? files)).map FileNode.path = collected.filter files.canRead := by
  induction collected with
  | nil => rfl
  | cons path rest ih =>
      rcases known path List.mem_cons_self with ⟨language, isLanguage⟩
      have readable := isSome_readNode? files isLanguage
      have rest_known := ih fun other other_mem => known other (List.mem_cons_of_mem path other_mem)
      cases read : readNode? files path with
      | none =>
          rw [read] at readable
          rw [List.filterMap_cons_none read, List.filter_cons_of_neg (by simp [← readable]),
            rest_known]
      | some node =>
          rcases exists_of_readNode? read with ⟨_, _, -, -, rfl⟩
          rw [read] at readable
          rw [List.filterMap_cons_some read, List.filter_cons_of_pos (by simp [← readable]),
            List.map_cons, rest_known]
          rfl

/-- Files at different places have nodes at different places. -/
theorem nodup_location_filterMap_readNode? (files : FileSystem) {collected : List Path}
    (known : ∀ path ∈ collected, ∃ language, Language.ofPath? path = some language)
    (distinct : (collected.map Path.components).Nodup) :
    ((collected.filterMap (readNode? files)).map FileNode.location).Nodup := by
  have analyzed_distinct : ((collected.filter files.canRead).map Path.components).Nodup :=
    (List.filter_sublist.map Path.components).nodup distinct
  rw [← map_path_filterMap_readNode? files known, List.map_map] at analyzed_distinct
  exact analyzed_distinct

/-- The graph of a directory, before it is linked, has the nodes of the collected files. -/
theorem mem_foldl_insert_readNode?_iff {root : Path}
    {excluded : Path → Bool} {accept : Language → Bool} {collected : List Path}
    (collects : files.sourceFiles root excluded accept = .ok collected) (node : FileNode) :
    node ∈ ((collected.filterMap (readNode? files)).foldl Graph.insert (Graph.empty root)).nodes ↔
      ∃ path ∈ collected, readNode? files path = some node := by
  rcases FileSystem.sourceFiles_spec collects with ⟨distinct, proper⟩
  have known : ∀ path ∈ collected, ∃ language, Language.ofPath? path = some language := by
    intro path path_mem
    rcases (proper path path_mem).2.language with ⟨language, isLanguage, -⟩
    exact ⟨language, isLanguage⟩
  have inserted := Graph.foldl_insert_perm root
    (nodup_location_filterMap_readNode? files known distinct)
  rw [inserted.mem_iff, List.mem_filterMap]

theorem buildGraph_eq_ok {root : Path} {patterns : List String} {excluded : Glob.Excludes}
    {collected : List Path} (compiled : Glob.Excludes.compile patterns = .ok excluded)
    (collects : files.sourceFiles root excluded.excludes Language.isEcmaScript = .ok collected) :
    buildGraph files root patterns =
      .ok ((collected.filterMap (readNode? files)).foldl Graph.insert (Graph.empty root)).link := by
  simp only [buildGraph, compiled, collects, bind, Except.bind]
  rfl

/-- A graph is built from the files that are collected. -/
theorem exists_of_buildGraph {root : Path} {patterns : List String} {graph : Graph}
    (built : buildGraph files root patterns = .ok graph) :
    ∃ excluded collected, Glob.Excludes.compile patterns = .ok excluded ∧
      files.sourceFiles root excluded.excludes Language.isEcmaScript = .ok collected ∧
      graph = ((collected.filterMap (readNode? files)).foldl Graph.insert
        (Graph.empty root)).link := by
  cases compiled : Glob.Excludes.compile patterns with
  | error failure => simp [buildGraph, compiled, bind, Except.bind] at built
  | ok excluded =>
      cases collects : files.sourceFiles root excluded.excludes Language.isEcmaScript with
      | error failure => simp [buildGraph, compiled, collects, bind, Except.bind] at built
      | ok collected =>
          rw [buildGraph_eq_ok compiled collects] at built
          exact ⟨excluded, collected, rfl, collects, (Except.ok.inj built).symm⟩

/-- What the graph of a directory says about the files that were analyzed. -/
structure Represents (files : FileSystem) (analyzed : List Path) (graph : Graph) : Prop where
  distinct : (analyzed.map Path.components).Nodup
  length : graph.nodes.length = analyzed.length
  node : ∀ node ∈ graph.nodes, node.path ∈ analyzed
  edge : ∀ source target, graph.Lists source target →
    target ∈ analyzed ∧ target.components ≠ source.components ∧
      ∃ importer ∈ analyzed, importer.components = source.components ∧
        FileImports files analyzed importer target

section Linking

variable {analyzed : List Path} {graph : Graph}
  (paths : (graph.nodes.map FileNode.path).Perm analyzed)
  (read : ∀ node ∈ graph.nodes, readNode? files node.path = some node)

include paths

theorem mem_locations_iff (location : List Component) :
    location ∈ graph.locations ↔ location ∈ analyzed.map Path.components := by
  rw [← (paths.map Path.components).mem_iff, List.map_map]
  rfl

theorem path_mem_analyzed {node : FileNode} (node_mem : node ∈ graph.nodes) :
    node.path ∈ analyzed :=
  paths.mem_iff.mp (List.mem_map_of_mem node_mem)

/-- A file that a specifier names is written as it was collected. -/
theorem mem_analyzed_of_resolve? (tidy : ∀ path ∈ analyzed, path.IsTidy)
    {importer target : Path} {specifier : String}
    (names : graph.resolve? importer specifier = some target) : target ∈ analyzed := by
  have location_mem := (mem_locations_iff paths _).mp (Graph.contains_of_resolve? names)
  rcases List.mem_map.mp location_mem with ⟨path, path_mem, same⟩
  have written : path = target :=
    (tidy path path_mem).eq_of_components (Graph.isTidy_of_resolve? names) same
  exact written ▸ path_mem

include read

/-- A specifier of a node stands in the source of its file. -/
theorem fileImports_of_resolve? {node : FileNode} (node_mem : node ∈ graph.nodes)
    {specifier : String} (specifier_mem : specifier ∈ node.importPaths) {target : Path}
    (names : graph.resolve? node.path specifier = some target) :
    FileImports files analyzed node.path target := by
  rcases exists_of_readNode? (read node node_mem) with
    ⟨language, content, isLanguage, isRead, same⟩
  rw [same] at specifier_mem
  rcases List.mem_map.mp (OrderedList.mem_of_mem_ofList specifier specifier_mem) with
    ⟨spec, spec_mem, rfl⟩
  refine ⟨language, content, isLanguage, isRead, spec, spec_mem, ?_⟩
  rw [← names]
  exact Graph.resolveAmong?_congr (fun location => (mem_locations_iff paths location).symm) _ _

theorem represents_link (distinct : (analyzed.map Path.components).Nodup)
    (tidy : ∀ path ∈ analyzed, path.IsTidy) : Represents files analyzed graph.link := by
  have bare : ∀ node ∈ graph.nodes, node.importsFrom = [] := by
    intro node node_mem
    rcases exists_of_readNode? (read node node_mem) with ⟨_, _, -, -, same⟩
    rw [same]
    rfl
  refine ⟨distinct, ?_, ?_, ?_⟩
  · rw [Graph.link_nodes, List.length_map, ← paths.length_eq, List.length_map]
  · intro linked linked_mem
    rcases (graph.mem_link_nodes_iff linked).mp linked_mem with ⟨node, node_mem, rfl⟩
    rw [(node.foldl_record_fixed graph.resolved).1]
    exact path_mem_analyzed paths node_mem
  · intro source target lists
    rcases Graph.exists_resolve?_of_lists_link bare lists with
      ⟨node, node_mem, place, differs, specifier, specifier_mem, names⟩
    refine ⟨mem_analyzed_of_resolve? paths tidy names, differs, ?_⟩
    exact ⟨node.path, path_mem_analyzed paths node_mem, place,
      fileImports_of_resolve? paths read node_mem specifier_mem names⟩

end Linking

/-- The graph of a directory represents the collected files that can be read. -/
theorem represents_buildGraph {root : Path} {patterns : List String} {graph : Graph}
    (built : buildGraph files root patterns = .ok graph) :
    graph.root = root ∧ ∃ excluded collected, Glob.Excludes.compile patterns = .ok excluded ∧
      files.sourceFiles root excluded.excludes Language.isEcmaScript = .ok collected ∧
      Represents files (collected.filter files.canRead) graph := by
  rcases exists_of_buildGraph built with ⟨excluded, collected, compiled, collects, rfl⟩
  rcases FileSystem.sourceFiles_spec collects with ⟨distinct, proper⟩
  have known : ∀ path ∈ collected, ∃ language, Language.ofPath? path = some language := by
    intro path path_mem
    rcases (proper path path_mem).2.language with ⟨language, isLanguage, -⟩
    exact ⟨language, isLanguage⟩
  have analyzed_distinct : ((collected.filter files.canRead).map Path.components).Nodup :=
    (List.filter_sublist.map Path.components).nodup distinct
  have nodePaths := map_path_filterMap_readNode? files known
  have inserted := Graph.foldl_insert_perm root
    (nodup_location_filterMap_readNode? files known distinct)
  refine ⟨?_, excluded, collected, compiled, collects, represents_link ?_ ?_ analyzed_distinct ?_⟩
  · rw [Graph.link_root]
    exact Graph.foldl_insert_root _ _
  · rw [← nodePaths]
    exact inserted.map FileNode.path
  · intro node node_mem
    rcases List.mem_filterMap.mp (inserted.mem_iff.mp node_mem) with ⟨path, -, isRead⟩
    rcases exists_of_readNode? isRead with ⟨_, _, -, -, rfl⟩
    exact isRead
  · intro path path_mem
    exact (proper path (List.mem_of_mem_filter path_mem)).1

end Reading

end CodeFacts.Imports
