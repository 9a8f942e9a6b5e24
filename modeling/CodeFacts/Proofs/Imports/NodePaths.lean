import CodeFacts.Proofs.FileSystem.Respelling
import CodeFacts.Proofs.Imports.Build
import CodeFacts.Proofs.Imports.Candidates

/-!
# How the files of a graph are written

The files of a graph are written below the normalized root, and a specifier is looked up by the
normalized path that it names. Both are written in the same way, unless the root is the working
directory: what is below `.` starts with a component that normalization removes. Then nothing is
found but an index file that is looked up in the working directory itself.
-/

namespace CodeFacts

open CodeFacts.Path (under IsBase IsStart IsName)

namespace Path

theorem IsPlain.current_notMem {components : List Component} (plain : IsPlain components) :
    .current ∉ components := by
  intro current_mem
  cases plain with
  | relative isStep => exact isStep _ current_mem
  | rooted isStep =>
      rcases List.mem_cons.mp current_mem with root | step
      · exact Component.noConfusion root
      · exact isStep _ step

theorem normalize_eq_under (path : Path) :
    path.normalize = under (normalizeComponents path.components) [] := by
  simp [normalize, under]

/-- A path is normalized to the working directory if nothing is left of it. -/
theorem normalize_eq_current_iff (path : Path) :
    path.normalize = ⟨"."⟩ ↔ normalizeComponents path.components = [] := by
  constructor
  · intro current
    by_contra some
    have means := (isPlain_normalizeComponents path).components_ofComponents some
    have current_mem : .current ∈ (⟨"."⟩ : Path).components := by decide
    rw [← current, normalize, means] at current_mem
    exact (isPlain_normalizeComponents path).current_notMem current_mem
  · intro nothing
    rw [normalize, nothing]
    rfl

theorem isStart_normalizeComponents {path : Path} (elsewhere : path.normalize ≠ ⟨"."⟩) :
    IsStart (normalizeComponents path.components) :=
  ⟨isBase_normalizeComponents path, fun nothing =>
    elsewhere ((normalize_eq_current_iff path).mpr nothing)⟩

/-- The only normalized path that starts at the working directory is the working directory. -/
theorem eq_current_of_normal {path : Path} (normal : path.normalize = path)
    (current_mem : .current ∈ path.components) : path = ⟨"."⟩ := by
  by_contra elsewhere
  rw [← normal] at elsewhere
  have start := isStart_normalizeComponents elsewhere
  rw [← normal, normalize_eq_under, start.components_under_nil] at current_mem
  exact start.plain.current_notMem current_mem

end Path

namespace Imports

namespace Graph

/-- What a specifier may name is written as normalization writes it, except for index files of the
working directory. -/
theorem normalize_of_mem_candidates {importer candidate : Path} {specifier : String}
    (candidate_mem : candidate ∈ candidates importer specifier) :
    candidate.normalize = candidate ∨
      ∃ extension ∈ moduleExtensions, candidate = ⟨"./index." ++ extension⟩ := by
  unfold candidates at candidate_mem
  dsimp only at candidate_mem
  generalize (importer.parent?.getD ⟨""⟩).join ⟨specifier⟩ = named at candidate_mem
  have isBase := Path.isBase_normalizeComponents named
  rw [List.cons_append, List.mem_cons, List.mem_append, List.mem_map, List.mem_map] at candidate_mem
  rcases candidate_mem with rfl | ⟨extension, extension_mem, rfl⟩ | ⟨extension, extension_mem, rfl⟩
  · exact Or.inl named.normalize_normalize
  · refine Or.inl ?_
    rw [named.normalize_eq_under]
    generalize Path.normalizeComponents named.components = base at isBase
    revert extension
    rcases isBase.cases with rfl | rfl | rfl | rfl | ⟨front, name, rfl, frontBase, isName⟩
    · decide
    · decide
    · decide
    · decide
    · intro extension extension_mem
      have all_named : ∀ other ∈ [] ++ [name], IsName other := by simpa using isName
      have exchanged := stem_append_under frontBase all_named extension_mem
      have new_named := isName_stemName_append isName extension_mem
      have last : under (front ++ [.name name]) [] = under front ([] ++ [name]) := by simp [under]
      rw [last, exchanged]
      exact Path.normalize_under frontBase (by simpa using new_named) (by simp)
  · by_cases current : named.normalize = ⟨"."⟩
    · rw [current]
      refine Or.inr ⟨extension, extension_mem, ?_⟩
      revert extension
      decide
    · have start := Path.isStart_normalizeComponents current
      have index_named : ∀ other ∈ [] ++ ["index." ++ extension], IsName other := by
        simpa using isName_index extension extension_mem
      rw [named.normalize_eq_under, start.join_under index_named]
      exact Or.inl (Path.normalize_under start.toIsBase index_named (start.append_ne_nil _))

/-- What the files of a graph and their edges say about the root from which it was built. -/
structure FollowsRoot (root : Path) (graph : Graph) : Prop where
  /-- All files are below the root. -/
  below : ∀ node ∈ graph.nodes, FileSystem.LeadsBelow root.normalize node.path ∧
    root.normalize.components.length < node.location.length
  /-- They are written as normalization writes them, unless the root is the working directory. -/
  normal_iff : (∀ node ∈ graph.nodes, node.path.normalize = node.path) ↔
    (root.normalize = ⟨"."⟩ → graph.nodes = [])
  /-- Then a specifier for which one of the files can be meant is resolved, and gives an edge. -/
  linked : root.normalize ≠ ⟨"."⟩ → ∀ node ∈ graph.nodes, ∀ specifier ∈ node.importPaths,
    isFileSpecifier specifier = true → ∀ candidate ∈ candidates node.path specifier,
      ∀ target ∈ graph.nodes, candidate.normalize = target.path.normalize →
        ∃ named ∈ graph.nodes, graph.resolve? node.path specifier = some named.path ∧
          (named.location ≠ node.location →
            named.location ∈ node.importsFrom.map Path.components ∧
              node.location ∈ named.importedBy.map Path.components)
  /-- In the working directory, nothing but an index file of that directory is imported. -/
  index : root.normalize = ⟨"."⟩ → ∀ node ∈ graph.nodes, ∀ target ∈ node.importsFrom,
    ∃ extension ∈ moduleExtensions, target.components = [.current, .name ("index." ++ extension)]

section Below

variable {root path : Path} (leads : FileSystem.LeadsBelow root.normalize path)

include leads

theorem normalize_of_leadsBelow (elsewhere : root.normalize ≠ ⟨"."⟩) (tidy : path.IsTidy) :
    path.normalize = path := by
  have start := Path.isStart_normalizeComponents elsewhere
  rcases leads with ⟨names, means, -⟩
  rw [root.normalize_eq_under, start.components_under_nil] at means
  have isName : ∀ name ∈ names, IsName name := by
    intro name name_mem
    have component_mem : .name name ∈ path.components := by
      rw [means]
      exact List.mem_append_right _ (List.mem_map_of_mem name_mem)
    exact Path.isName_of_mem_components component_mem
  have written : path = under (Path.normalizeComponents root.components) names := by
    refine tidy.eq_of_components (Path.isTidy_under start.toIsBase isName) ?_
    rw [means, start.components_under isName]
  rw [written]
  exact Path.normalize_under start.toIsBase isName (start.append_ne_nil _)

theorem current_mem_of_leadsBelow (current : root.normalize = ⟨"."⟩) :
    .current ∈ path.components := by
  rcases leads with ⟨names, means, -⟩
  rw [means, current]
  exact List.mem_append_left _ (by decide)

end Below

section Linked

variable {graph : Graph}

/-- A specifier is resolved if one of the paths that it may name is that of a file. -/
theorem exists_resolve?_of_mem_candidates
    (tidy : ∀ node ∈ graph.nodes, node.path.IsTidy) {importer candidate : Path}
    {specifier : String} (names_file : isFileSpecifier specifier = true)
    (candidate_mem : candidate ∈ candidates importer specifier)
    (known : candidate.components ∈ graph.locations) :
    ∃ named ∈ graph.nodes, graph.resolve? importer specifier = some named.path := by
  cases names : graph.resolve? importer specifier with
  | none =>
      unfold resolve? resolveAmong? at names
      rw [if_pos names_file, List.find?_eq_none] at names
      exact absurd (List.contains_iff_mem.mpr known) (names candidate candidate_mem)
  | some found =>
      rcases List.mem_map.mp (contains_of_resolve? names) with ⟨named, named_mem, same⟩
      have written : named.path = found :=
        (tidy named named_mem).eq_of_components (isTidy_of_resolve? names) same
      exact ⟨named, named_mem, by rw [written]⟩

theorem edge_of_resolve? {node named : FileNode}
    (node_mem : node ∈ graph.nodes) (named_mem : named ∈ graph.nodes) {specifier : String}
    (specifier_mem : specifier ∈ node.importPaths)
    (names : graph.resolve? node.path specifier = some named.path)
    (differ : named.location ≠ node.location) :
    named.location ∈
        (graph.resolved.foldl FileNode.record node).importsFrom.map Path.components ∧
      node.location ∈
        (graph.resolved.foldl FileNode.record named).importedBy.map Path.components := by
  have resolves : graph.Resolves node named.location :=
    ⟨differ, specifier, specifier_mem, named.path, names, rfl⟩
  exact ⟨((linksNode node_mem).importsFrom _).mpr (Or.inr resolves),
    ((linksNode named_mem).importedBy _).mpr (Or.inr ⟨node, node_mem, rfl, resolves⟩)⟩

theorem exists_candidate_of_mem_importsFrom {node : FileNode}
    (node_mem : node ∈ graph.nodes) (bare : node.importsFrom = []) {target : Path}
    (target_mem : target ∈ (graph.resolved.foldl FileNode.record node).importsFrom) :
    ∃ specifier, ∃ candidate ∈ candidates node.path specifier,
      candidate.components = target.components ∧ target.components ∈ graph.locations := by
  have resolves := ((linksNode node_mem).importsFrom _).mp
    (List.mem_map_of_mem target_mem)
  rw [bare] at resolves
  rcases resolves.resolve_left (by simp) with ⟨-, specifier, -, found, names, same⟩
  refine ⟨specifier, found, ?_, same, same ▸ contains_of_resolve? names⟩
  unfold resolve? resolveAmong? at names
  split at names
  · exact List.mem_of_find?_eq_some names
  · simp at names

end Linked

section Root

variable {root : Path} {graph : Graph}
  (below : ∀ node ∈ graph.nodes, FileSystem.LeadsBelow root.normalize node.path ∧
    root.normalize.components.length < node.location.length)

include below

/-- Elsewhere than in the working directory, a path that is meant for a file is that of the file. -/
theorem mem_locations_of_normalize_eq (elsewhere : root.normalize ≠ ⟨"."⟩)
    (tidy : ∀ node ∈ graph.nodes, node.path.IsTidy) {importer candidate : Path}
    {specifier : String} (candidate_mem : candidate ∈ candidates importer specifier)
    {target : FileNode} (target_mem : target ∈ graph.nodes)
    (same : candidate.normalize = target.path.normalize) :
    candidate.components ∈ graph.locations := by
  rcases below target target_mem with ⟨leads, deeper⟩
  rw [normalize_of_leadsBelow leads elsewhere (tidy target target_mem)] at same
  rcases normalize_of_mem_candidates candidate_mem with normal | ⟨extension, extension_mem, rfl⟩
  · rw [← normal, same]
    exact List.mem_map_of_mem target_mem
  · -- A file below the root has more components than an index file of the working directory.
    have short : ∀ extension ∈ moduleExtensions,
        (Path.normalize ⟨"./index." ++ extension⟩).components.length = 1 := by decide
    have start := Path.isStart_normalizeComponents elsewhere
    have some := List.length_pos_iff.mpr start.nonempty
    rw [FileNode.location, ← same, short extension extension_mem, root.normalize_eq_under,
      start.components_under_nil] at deeper
    omega

/-- In the working directory, a path that a specifier may name is that of no file, unless it is an
index file. -/
theorem index_of_mem_locations (current : root.normalize = ⟨"."⟩) {importer candidate : Path}
    {specifier : String} (candidate_mem : candidate ∈ candidates importer specifier)
    (known : candidate.components ∈ graph.locations) :
    ∃ extension ∈ moduleExtensions,
      candidate.components = [.current, .name ("index." ++ extension)] := by
  rcases List.mem_map.mp known with ⟨node, node_mem, same⟩
  rcases below node node_mem with ⟨leads, deeper⟩
  rcases normalize_of_mem_candidates candidate_mem with normal | ⟨extension, extension_mem, rfl⟩
  · have current_mem := current_mem_of_leadsBelow leads current
    rw [same] at current_mem
    rw [FileNode.location, same, Path.eq_current_of_normal normal current_mem, current] at deeper
    exact absurd deeper (Nat.lt_irrefl _)
  · have means : ∀ extension ∈ moduleExtensions,
        (⟨"./index." ++ extension⟩ : Path).components =
          [.current, .name ("index." ++ extension)] := by
      decide
    exact ⟨extension, extension_mem, means extension extension_mem⟩

theorem followsRoot_link (tidy : ∀ node ∈ graph.nodes, node.path.IsTidy)
    (bare : ∀ node ∈ graph.nodes, node.importsFrom = []) : FollowsRoot root graph.link := by
  have same_path (node : FileNode) := (node.foldl_record_fixed graph.resolved).1
  have same_specifiers (node : FileNode) := (node.foldl_record_fixed graph.resolved).2.1
  have same_location (node : FileNode) :
      (graph.resolved.foldl FileNode.record node).location = node.location := by
    rw [FileNode.location, same_path, FileNode.location]
  have resolve_link (importer : Path) (specifier : String) :
      graph.link.resolve? importer specifier = graph.resolve? importer specifier := by
    rw [resolve?, resolve?, locations_link]
  refine ⟨?_, ⟨?_, ?_⟩, ?_, ?_⟩
  · intro linked linked_mem
    rcases (graph.mem_link_nodes_iff linked).mp linked_mem with ⟨node, node_mem, rfl⟩
    rw [same_path, same_location]
    exact below node node_mem
  · intro normal current
    apply List.eq_nil_iff_forall_not_mem.mpr
    intro linked linked_mem
    have itself := normal linked linked_mem
    rcases (graph.mem_link_nodes_iff linked).mp linked_mem with ⟨node, node_mem, rfl⟩
    rcases below node node_mem with ⟨leads, deeper⟩
    rw [same_path] at itself
    have path := Path.eq_current_of_normal itself (current_mem_of_leadsBelow leads current)
    rw [FileNode.location, path, current] at deeper
    exact Nat.lt_irrefl _ deeper
  · intro only_elsewhere linked linked_mem
    have elsewhere : root.normalize ≠ ⟨"."⟩ := by
      intro current
      rw [only_elsewhere current] at linked_mem
      simp at linked_mem
    rcases (graph.mem_link_nodes_iff linked).mp linked_mem with ⟨node, node_mem, rfl⟩
    rw [same_path]
    exact normalize_of_leadsBelow (below node node_mem).1 elsewhere (tidy node node_mem)
  · intro elsewhere linked linked_mem specifier specifier_mem names_file candidate candidate_mem
      linked_target linked_target_mem same
    rcases (graph.mem_link_nodes_iff linked).mp linked_mem with ⟨node, node_mem, rfl⟩
    rcases (graph.mem_link_nodes_iff linked_target).mp linked_target_mem with
      ⟨target, target_mem, rfl⟩
    rw [same_path] at candidate_mem same
    rw [same_specifiers] at specifier_mem
    have known := mem_locations_of_normalize_eq below elsewhere tidy candidate_mem target_mem same
    rcases exists_resolve?_of_mem_candidates tidy names_file candidate_mem known with
      ⟨named, named_mem, names⟩
    refine ⟨_, (graph.mem_link_nodes_iff _).mpr ⟨named, named_mem, rfl⟩, ?_⟩
    rw [same_path, same_path, same_location, same_location, resolve_link]
    exact ⟨names, edge_of_resolve? node_mem named_mem specifier_mem names⟩
  · intro current linked linked_mem target target_mem
    rcases (graph.mem_link_nodes_iff linked).mp linked_mem with ⟨node, node_mem, rfl⟩
    rcases exists_candidate_of_mem_importsFrom node_mem (bare node node_mem) target_mem with ⟨specifier, candidate, candidate_mem, same, known⟩
    rw [← same] at known ⊢
    exact index_of_mem_locations below current candidate_mem known

end Root

end Graph

/-- A graph can be built from every directory that can be listed, and follows the directory. -/
theorem exists_followsRoot_buildGraph {files : FileSystem} {root : Path}
    (listable : files.canList root.normalize = true) {patterns : List String}
    {excluded : Glob.Excludes} (compiled : Glob.Excludes.compile patterns = .ok excluded) :
    ∃ graph, buildGraph files root patterns = .ok graph ∧ graph.FollowsRoot root := by
  rcases (FileSystem.canList_iff _).mp listable with ⟨location, located, isDirectory, readable⟩
  have walks := FileSystem.walk_of_isDirectoryAt located isDirectory
  rw [readable, if_neg Bool.false_ne_true] at walks
  rcases FileSystem.exists_sourceFiles_of_walk walks excluded.excludes Language.isEcmaScript with
    ⟨collected, collects, found⟩
  have nodes := mem_foldl_insert_readNode?_iff collects
  have proper := (FileSystem.sourceFiles_spec collects).2
  refine ⟨_, buildGraph_eq_ok compiled collects, Graph.followsRoot_link ?_ ?_ ?_⟩
  · intro node node_mem
    rcases (nodes node).mp node_mem with ⟨path, path_mem, read⟩
    rcases exists_of_readNode? read with ⟨_, _, -, -, rfl⟩
    exact ⟨(proper path path_mem).2.leadsBelow,
      FileSystem.length_lt_of_mem_filesBelow root.isTidy_normalize (found path path_mem)⟩
  · intro node node_mem
    rcases (nodes node).mp node_mem with ⟨path, path_mem, read⟩
    rcases exists_of_readNode? read with ⟨_, _, -, -, rfl⟩
    exact (proper path path_mem).1
  · intro node node_mem
    rcases (nodes node).mp node_mem with ⟨path, path_mem, read⟩
    rcases exists_of_readNode? read with ⟨_, _, -, -, rfl⟩
    rfl

end Imports

end CodeFacts
