import CodeFacts.Proofs.FileSystem.Respelling
import CodeFacts.Proofs.Imports.Build
import CodeFacts.Proofs.Imports.Candidates
import CodeFacts.Proofs.Imports.Moving

/-!
# Graphs from two spellings of a directory

If a directory is written under two bases, the same files are collected and read from both, and a
specifier that does not climb above the bases names the same file in both. So the graph from one
spelling is the graph from the other, moved.
-/

namespace CodeFacts.Imports

open CodeFacts.Path (under IsBase IsStart IsName climbFrom namesLeft)
open FileSystem (FitUnder)

namespace Graph

/-- The graph with all its paths written below another root. -/
def rebase (old new : Path) (graph : Graph) : Graph :=
  graph.move (fun path => path.rebase old new) new

theorem move_id (graph : Graph) : graph.move id graph.root = graph := by
  have same (node : FileNode) : node.move id = node := by
    apply FileNode.ext
    · rfl
    · rfl
    · rfl
    · simpa [FileNode.move] using node.ordered.importsFrom.ofList_eq_self
    · simpa [FileNode.move] using node.ordered.importedBy.ofList_eq_self
  refine Graph.ext rfl ?_
  change OrderedList.ofList FileNode.compare (graph.nodes.map (FileNode.move id)) = graph.nodes
  rw [List.map_congr_left fun node _ => same node, List.map_id', graph.ordered.ofList_eq_self]

/-- A path is written by names under a base. -/
def IsUnder (base : List Component) (path : Path) : Prop :=
  ∃ names, (∀ name ∈ names, IsName name) ∧ path = under base names

/-- Paths below two spellings of a directory are in the same order. -/
theorem compare_rebase {here there : List Component} (hereStart : IsStart here)
    (thereStart : IsStart there) (first second : Path) (first_under : IsUnder here first)
    (second_under : IsUnder here second) :
    (first.rebase (under here []) (under there [])).compare
        (second.rebase (under here []) (under there [])) = first.compare second := by
  rcases first_under with ⟨names, isName, rfl⟩
  rcases second_under with ⟨others, others_named, rfl⟩
  rw [hereStart.rebase_under thereStart isName, hereStart.rebase_under thereStart others_named,
    hereStart.compare_under isName others_named, thereStart.compare_under isName others_named]

/-- The nodes of a graph are those of the files by given names under a base. -/
def ReadFrom (files : FileSystem) (base : List Component) (found : List (List String))
    (graph : Graph) : Prop :=
  ∀ node, node ∈ graph.nodes ↔ ∃ names ∈ found, readNode? files (under base names) = some node

/-- The names of the files that can be read. -/
def readable (files : FileSystem) (base : List Component) (found : List (List String)) :
    List (List String) :=
  found.filter fun names => (readNode? files (under base names)).isSome

theorem ReadFrom.exists_names {files : FileSystem} {base : List Component}
    {found : List (List String)} {graph : Graph} (readFrom : graph.ReadFrom files base found)
    {node : FileNode} (node_mem : node ∈ graph.nodes) :
    ∃ names ∈ readable files base found, node.path = under base names ∧
      node.importsFrom = [] ∧ node.importedBy = [] := by
  rcases (readFrom node).mp node_mem with ⟨names, names_mem, read⟩
  rcases exists_of_readNode? read with ⟨_, _, -, -, rfl⟩
  exact ⟨names, List.mem_filter.mpr ⟨names_mem, by simp [read]⟩, rfl, rfl, rfl⟩

/-- Where the nodes of a graph are after it has been moved from one base to another. -/
theorem ReadFrom.mem_locations_move {files : FileSystem} {here there : List Component}
    (start : IsStart there) {found : List (List String)}
    (isName : ∀ names ∈ found, ∀ name ∈ names, IsName name) {graph : Graph}
    (readFrom : graph.ReadFrom files here found) {write : Path → Path}
    (written : ∀ names ∈ found, write (under here names) = under there names) (root : Path)
    (location : List Component) :
    location ∈ (graph.move write root).locations ↔
      location ∈ locationsUnder there (readable files here found) := by
  have means : ∀ names ∈ found,
      (write (under here names)).components = there ++ names.map .name := by
    intro names names_mem
    rw [written names names_mem, start.components_under (isName names names_mem)]
  have moved : location ∈ (graph.move write root).locations ↔
      ∃ node ∈ graph.nodes, (write node.path).components = location := by
    refine (OrderedList.mem_keys_ofList FileNode.isKey_location
      (graph.nodes.map (FileNode.move write)) location).trans ?_
    rw [List.map_map]
    exact List.mem_map
  rw [moved, locationsUnder, List.mem_map]
  constructor
  · rintro ⟨node, node_mem, rfl⟩
    rcases readFrom.exists_names node_mem with ⟨names, names_mem, path, -⟩
    refine ⟨names, names_mem, ?_⟩
    rw [path, means names (List.mem_of_mem_filter names_mem)]
  · rintro ⟨names, names_mem, rfl⟩
    rcases List.mem_filter.mp names_mem with ⟨found_mem, read⟩
    rcases Option.isSome_iff_exists.mp read with ⟨node, isRead⟩
    refine ⟨node, (readFrom node).mpr ⟨names, found_mem, isRead⟩, ?_⟩
    rcases exists_of_readNode? isRead with ⟨_, _, -, -, rfl⟩
    exact means names found_mem

end Graph

theorem isSome_splitExtension?_of_ofPath? {base : List Component} (isBase : IsBase base)
    {names : List String} {name : String} (isName : ∀ other ∈ names ++ [name], IsName other)
    (known : (Language.ofPath? (under base (names ++ [name]))).isSome = true) :
    (Path.splitExtension? name.toList).isSome = true := by
  unfold Language.ofPath? Path.extension? at known
  rw [Path.fileName?_under isBase isName] at known
  cases divided : Path.splitExtension? name.toList with
  | none => simp [divided] at known
  | some parts => rfl

/-- Files that can be read are no directories, by the extensions of their names. -/
theorem areFiles_readable {files : FileSystem} {base here : List Component} {top : List String}
    (topNames : ∀ name ∈ top, IsName name) (start : IsStart (base ++ top.map .name))
    (hereStart : IsStart here) {found : List (List String)}
    (proper : ∀ names ∈ found, 0 < names.length ∧ ∀ name ∈ names, IsName name) :
    Graph.AreFiles base ((Graph.readable files here found).map (top ++ ·)) := by
  refine ⟨?_, ?_, ?_⟩
  · intro names names_mem
    rcases List.mem_map.mp names_mem with ⟨below, below_mem, rfl⟩
    exact List.forall_mem_append.mpr ⟨topNames, (proper below (List.mem_of_mem_filter below_mem)).2⟩
  · intro names names_mem
    rcases List.mem_map.mp names_mem with ⟨below, below_mem, rfl⟩
    rcases List.mem_filter.mp below_mem with ⟨found_mem, read⟩
    rcases proper below found_mem with ⟨long, isName⟩
    rcases List.eq_nil_or_concat below with rfl | ⟨front, last, rfl⟩
    · simp at long
    rw [List.concat_eq_append] at isName read ⊢
    rcases Option.isSome_iff_exists.mp read with ⟨node, isRead⟩
    rcases exists_of_readNode? isRead with ⟨_, _, known, -, -⟩
    refine ⟨top ++ front, last, by rw [List.append_assoc], ?_⟩
    exact isSome_splitExtension?_of_ofPath? hereStart.toIsBase isName (by simp [known])
  · rintro rfl names names_mem
    rcases List.mem_map.mp names_mem with ⟨below, below_mem, rfl⟩
    have long := (proper below (List.mem_of_mem_filter below_mem)).1
    have nonempty := start.nonempty
    have top_long : 0 < top.length := by
      rw [List.length_pos_iff]
      simpa using nonempty
    rw [List.length_append]
    omega

theorem move_fileNode (write : Path → Path) (path : Path) (facts : ModuleFacts) :
    (fileNode path facts).move write = fileNode (write path) facts :=
  FileNode.ext rfl rfl rfl rfl rfl

section Nodes

variable {files : FileSystem} {here there : List Component} (hereStart : IsStart here)
  (thereStart : IsStart there) (same : files.SamePlaces here there)

include hereStart thereStart same

theorem readNode?_respelled {names : List String} (nonempty : names ≠ [])
    (isName : ∀ name ∈ names, IsName name) (fit : FitUnder here there names) :
    readNode? files (under there names) =
      (readNode? files (under here names)).map
        (FileNode.move fun path => path.rebase (under here []) (under there [])) := by
  unfold readNode?
  rw [FileSystem.ofPath?_under hereStart thereStart nonempty isName,
    FileSystem.read_congr (same names isName fit.1 fit.2)]
  cases Language.ofPath? (under there names) with
  | none => rfl
  | some language =>
      cases files.read (under there names) with
      | error fault => rfl
      | ok source =>
          simp only [Option.map_some, move_fileNode, hereStart.rebase_under thereStart isName]

/-- The files that can be read from one spelling of a directory can be read from the other. -/
theorem filterMap_readNode?_respelled {found : List (List String)}
    (proper : ∀ names ∈ found, 0 < names.length ∧ ∀ name ∈ names, IsName name)
    (fit : ∀ names ∈ found, FitUnder here there names) :
    (found.map (under there)).filterMap (readNode? files) =
      ((found.map (under here)).filterMap (readNode? files)).map
        (FileNode.move fun path => path.rebase (under here []) (under there [])) := by
  rw [List.filterMap_map, List.filterMap_map, List.map_filterMap]
  refine List.filterMap_congr ?_
  intro names names_mem
  rcases proper names names_mem with ⟨long, isName⟩
  exact readNode?_respelled hereStart thereStart same (List.ne_nil_of_length_pos long) isName
    (fit names names_mem)

end Nodes

/-- The graph of a directory has the nodes of the files that were collected. -/
theorem readFrom_of_collects {files : FileSystem} {root : Path}
    {excluded : Path → Bool} {accept : Language → Bool} {base : List Component}
    {found : List (List String)}
    (collects : files.sourceFiles root excluded accept = .ok (found.map (under base))) :
    Graph.ReadFrom files base found
      (((found.map (under base)).filterMap (readNode? files)).foldl Graph.insert
        (Graph.empty root)) := by
  intro node
  rw [mem_foldl_insert_readNode?_iff collects]
  simp

/-- A specifier of a file below a base, that stays below it, is resolved by names. -/
theorem resolveAmong?_of_locations {base : List Component} (isBase : IsBase base)
    {top : List String} (start : IsStart (base ++ top.map .name))
    {locations : List (List Component)} {found : List (List String)}
    (placed : ∀ location, location ∈ locations ↔
      location ∈ Graph.locationsUnder (base ++ top.map .name) found)
    (areFiles : Graph.AreFiles base (found.map (top ++ ·))) {directory : List String}
    {file : String} (isName : ∀ name ∈ top ++ directory ++ [file], IsName name) {specifier : String}
    (names : Graph.isFileSpecifier specifier = true)
    (relative : Path.isAbsolute ⟨specifier⟩ = false)
    (level : climbFrom (top ++ directory).length (Path.steps ⟨specifier⟩) = 0) :
    Graph.resolveAmong? locations (under (base ++ top.map .name) (directory ++ [file])) specifier =
      ((Graph.candidateNames (namesLeft (top ++ directory) (Path.steps ⟨specifier⟩))).find?
        fun names => (found.map (top ++ ·)).contains names).map (under base) := by
  have same_places : Graph.locationsUnder (base ++ top.map .name) found =
      Graph.locationsUnder base (found.map (top ++ ·)) := by
    simp [Graph.locationsUnder]
  have nonempty : base ++ (top ++ directory).map .name ≠ [] := by
    rw [List.map_append, ← List.append_assoc]
    exact start.append_ne_nil _
  rw [Graph.resolveAmong?_congr placed, same_places, Path.under_append, ← List.append_assoc,
    Graph.resolveAmong?_under isBase isName nonempty relative level areFiles, if_pos names]

section Assembly

variable {files : FileSystem} {low high : List Component} (lowBase : IsBase low)
  (highBase : IsBase high) {top : List String} (topNames : ∀ name ∈ top, IsName name)
  (hereStart : IsStart (low ++ top.map .name)) (thereStart : IsStart (high ++ top.map .name))
  {found : List (List String)}
  (proper : ∀ names ∈ found, 0 < names.length ∧ ∀ name ∈ names, IsName name)

/-- The specifiers of files below a root, the root being some names below a base, are relative and
stay below the base. -/
def StayBelow (files : FileSystem) (base : List Component) (top : List String)
    (found : List (List String)) : Prop :=
  ∀ directory file, directory ++ [file] ∈ found → ∀ node,
    readNode? files (under (base ++ top.map .name) (directory ++ [file])) = some node →
    ∀ specifier ∈ node.importPaths, Graph.isFileSpecifier specifier = true →
      Path.isAbsolute ⟨specifier⟩ = false ∧
        climbFrom (top ++ directory).length (Path.steps ⟨specifier⟩) = 0

include lowBase highBase topNames hereStart thereStart proper

/-- A specifier names the same file from both spellings of the root. -/
theorem resolveAmong?_respelled (stay : StayBelow files low top found) {graph : Graph}
    (readFrom : graph.ReadFrom files (low ++ top.map .name) found) {node : FileNode}
    (node_mem : node ∈ graph.nodes) {specifier : String}
    (specifier_mem : specifier ∈ node.importPaths) (root : Path) :
    let write := fun path : Path =>
      path.rebase (under (low ++ top.map .name) []) (under (high ++ top.map .name) [])
    Graph.resolveAmong? (graph.move write root).locations (write node.path) specifier =
        (Graph.resolveAmong? graph.locations node.path specifier).map write ∧
      ∀ target, Graph.resolveAmong? graph.locations node.path specifier = some target →
        Graph.IsUnder (low ++ top.map .name) target := by
  intro write
  have isName : ∀ names ∈ found, ∀ name ∈ names, IsName name :=
    fun names names_mem => (proper names names_mem).2
  have written : ∀ names, (∀ name ∈ names, IsName name) →
      write (under (low ++ top.map .name) names) = under (high ++ top.map .name) names :=
    fun names named => hereStart.rebase_under thereStart named
  rcases (readFrom node).mp node_mem with ⟨names, names_mem, read⟩
  rcases proper names names_mem with ⟨long, named⟩
  rcases List.eq_nil_or_concat names with rfl | ⟨directory, file, rfl⟩
  · simp at long
  rw [List.concat_eq_append] at names_mem read named
  have path : node.path = under (low ++ top.map .name) (directory ++ [file]) := by
    rcases exists_of_readNode? read with ⟨_, _, -, -, rfl⟩
    rfl
  rw [path, written _ named]
  cases names_file : Graph.isFileSpecifier specifier with
  | false => simp [Graph.resolveAmong?, names_file]
  | true =>
      rcases stay directory file names_mem node read specifier specifier_mem names_file with
        ⟨relative, level⟩
      have all_named : ∀ name ∈ top ++ directory ++ [file], IsName name := by
        rw [List.append_assoc]
        exact List.forall_mem_append.mpr ⟨topNames, named⟩
      have here := readFrom.mem_locations_move hereStart isName
        (fun names _ => (rfl : id (under _ names) = _)) graph.root
      have there := readFrom.mem_locations_move thereStart isName
        (fun names names_mem => written names (isName names names_mem)) root
      rw [graph.move_id] at here
      rw [resolveAmong?_of_locations lowBase hereStart here
          (areFiles_readable topNames hereStart hereStart proper) all_named names_file relative
          level,
        resolveAmong?_of_locations highBase thereStart there
          (areFiles_readable topNames thereStart hereStart proper) all_named names_file relative
          level]
      -- Both sides now look for the same names, which are those of files below the root.
      generalize search : ((Graph.candidateNames
        (namesLeft (top ++ directory) (Path.steps ⟨specifier⟩))).find? fun names =>
          ((Graph.readable files (low ++ top.map .name) found).map (top ++ ·)).contains names) =
            first
      cases first with
      | none => simp
      | some names =>
          have contained := List.find?_some search
          rw [List.contains_iff_mem] at contained
          rcases List.mem_map.mp contained with ⟨below, below_mem, rfl⟩
          have below_named := isName below (List.mem_of_mem_filter below_mem)
          simp only [Option.map_some, Option.some.injEq, forall_eq', ← Path.under_append,
            written below below_named, true_and]
          exact ⟨below, below_named, rfl⟩

/-- A graph below one spelling of the root is linked as it is below the other. -/
theorem link_respelled (stay : StayBelow files low top found) {graph : Graph}
    (readFrom : graph.ReadFrom files (low ++ top.map .name) found) (root : Path) :
    let write := fun path : Path =>
      path.rebase (under (low ++ top.map .name) []) (under (high ++ top.map .name) [])
    (graph.move write root).link = graph.link.move write root := by
  intro write
  refine Graph.link_move (Graph.compare_rebase hereStart thereStart) ?_ ?_ ?_
  · intro node node_mem specifier specifier_mem
    exact (resolveAmong?_respelled lowBase highBase topNames hereStart thereStart proper stay
      readFrom node_mem specifier_mem root).1
  · intro node node_mem specifier specifier_mem
    exact (resolveAmong?_respelled lowBase highBase topNames hereStart thereStart proper stay
      readFrom node_mem specifier_mem root).2
  · intro node node_mem
    rcases readFrom.exists_names node_mem with ⟨names, names_mem, path, imports, importers⟩
    have named := (proper names (List.mem_of_mem_filter names_mem)).2
    exact ⟨⟨names, named, path⟩, by simp [imports], by simp [importers]⟩

omit proper in
/-- The graph of a directory is the same from both spellings of it. -/
theorem buildGraph_respelled
    (same : files.SamePlaces (low ++ top.map .name) (high ++ top.map .name)) {root other : Path}
    (root_eq : root.normalize = under (low ++ top.map .name) [])
    (other_eq : other = under (high ++ top.map .name) [])
    (isHere : files.canList root.normalize = true) (isThere : files.canList other = true)
    (fitsThere : files.FitsFrom root.normalize other)
    (fitsHere : files.FitsFrom other root.normalize) {patterns : List String}
    (stay : ∀ graph, buildGraph files root patterns = .ok graph → ∀ node ∈ graph.nodes,
      ∀ directory file, (∀ name ∈ directory ++ [file], IsName name) →
      node.path = under (low ++ top.map .name) (directory ++ [file]) →
      ∀ specifier ∈ node.importPaths, Graph.isFileSpecifier specifier = true →
        Path.isAbsolute ⟨specifier⟩ = false ∧
          climbFrom (top ++ directory).length (Path.steps ⟨specifier⟩) = 0) :
    buildGraph files other patterns =
      (buildGraph files root patterns).map (Graph.rebase root.normalize other) := by
  subst other_eq
  have none_named : ∀ name ∈ ([] : List String), IsName name := by simp
  have other_normal := Path.normalize_under thereStart.toIsBase none_named
    (thereStart.append_ne_nil _)
  rw [root_eq] at isHere fitsThere fitsHere ⊢
  cases compiled : Glob.Excludes.compile patterns with
  | error failure => simp [buildGraph, compiled, bind, Except.bind, Except.map]
  | ok excluded =>
      rcases FileSystem.sameNames_sourceFiles hereStart thereStart same root_eq other_normal
        isHere isThere fitsThere fitsHere excluded.excludes Language.isEcmaScript with
        ⟨_, _, collects, collects_too, found, proper, rfl, rfl⟩
      have fit : ∀ names ∈ found,
          FitUnder (low ++ top.map .name) (high ++ top.map .name) names := by
        intro names names_mem
        exact FileSystem.fitUnder_of_mem_sourceFiles hereStart thereStart root_eq fitsThere
          collects (proper names names_mem).2 (List.mem_map_of_mem names_mem)
      have readFrom := readFrom_of_collects collects
      have built := buildGraph_eq_ok compiled collects
      have stays : StayBelow files low top found := by
        intro directory file names_mem node read specifier specifier_mem names_file
        have linked_mem := (Graph.mem_link_nodes_iff _ _).mpr
          ⟨node, (readFrom node).mpr ⟨_, names_mem, read⟩, rfl⟩
        have fixed := node.foldl_record_fixed
        refine stay _ built _ linked_mem directory file (proper _ names_mem).2 ?_ specifier ?_
          names_file
        · rw [(fixed _).1]
          rcases exists_of_readNode? read with ⟨_, _, -, -, rfl⟩
          rfl
        · rwa [(fixed _).2.1]
      have nodes_under : ∀ node ∈ (found.map (under (low ++ top.map .name))).filterMap
          (readNode? files), Graph.IsUnder (low ++ top.map .name) node.path := by
        intro node node_mem
        rw [List.filterMap_map, List.mem_filterMap] at node_mem
        rcases node_mem with ⟨names, names_mem, read⟩
        rcases exists_of_readNode? read with ⟨_, _, -, -, rfl⟩
        exact ⟨names, (proper names names_mem).2, rfl⟩
      have none_under : ∀ node ∈ (Graph.empty root).nodes,
          Graph.IsUnder (low ++ top.map .name) node.path := by
        simp [Graph.empty]
      rw [built, buildGraph_eq_ok compiled collects_too,
        filterMap_readNode?_respelled hereStart thereStart same proper fit]
      refine congrArg Except.ok ?_
      rw [Graph.rebase,
        ← link_respelled lowBase highBase topNames hereStart thereStart proper stays readFrom,
        ← Graph.foldl_insert_move (Graph.compare_rebase hereStart thereStart) none_under
          nodes_under]
      rfl

end Assembly

end CodeFacts.Imports
