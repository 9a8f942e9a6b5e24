import CodeFacts.Proofs.FileSystem.WorkingDirectory
import CodeFacts.Proofs.Imports.Check
import CodeFacts.Proofs.Imports.NodePaths
import CodeFacts.Proofs.Imports.Respelling

/-!
# The spelling of the root

A directory can be given by many paths. Paths with one normalized form give one graph, and so does
the absolute form of an absolute path. A relative path gives the graph that its absolute form gives,
moved, as long as texts alone tell where paths lead: the path and the specifiers below it must not
climb further above the working directory than normalization keeps track of, and no path may be too
long in one of the two spellings.

The working directory itself is no such path: hardly a specifier is resolved below `.`, so files
that import each other do not do so in its graph.
-/

namespace CodeFacts.Imports

open CodeFacts.Path (under IsBase IsStart IsName climbFrom namesLeft)

/-- The graph with a root that is written in another way, and nothing else. -/
def Graph.withRoot (root : Path) (graph : Graph) : Graph :=
  { graph with root := root }

theorem Graph.link_withRoot (root : Path) (graph : Graph) :
    (graph.withRoot root).link = graph.link.withRoot root := by
  refine Graph.ext (link_root _) ?_
  change (graph.withRoot root).link.nodes = graph.link.nodes
  rw [link_nodes, link_nodes]
  rfl

theorem Graph.foldl_insert_withRoot (nodes : List FileNode) (root other : Path) :
    nodes.foldl insert (empty other) = (nodes.foldl insert (empty root)).withRoot other := by
  have same_nodes : (nodes.foldl insert (empty other)).nodes =
      (nodes.foldl insert (empty root)).nodes := by
    rw [foldl_insert_nodes, foldl_insert_nodes]
    rfl
  exact Graph.ext (foldl_insert_root _ _) same_nodes

/-- Roots with one normalized form give one graph. -/
theorem buildGraph_of_normalize_eq (files : FileSystem) {root other : Path}
    (same : other.normalize = root.normalize) (patterns : List String) :
    buildGraph files other patterns =
      (buildGraph files root patterns).map (Graph.withRoot other) := by
  have same_files (excluded : Path → Bool) :
      files.sourceFiles other excluded Language.isEcmaScript =
        files.sourceFiles root excluded Language.isEcmaScript := by
    unfold FileSystem.sourceFiles
    rw [same]
  cases compiled : Glob.Excludes.compile patterns with
  | error failure => simp [buildGraph, compiled, bind, Except.bind, Except.map]
  | ok excluded =>
      cases collects : files.sourceFiles root excluded.excludes Language.isEcmaScript with
      | error failure =>
          simp [buildGraph, compiled, same_files, collects, bind, Except.bind, Except.map]
      | ok collected =>
          have collects_too := (same_files excluded.excludes).trans collects
          rw [buildGraph_eq_ok compiled collects, buildGraph_eq_ok compiled collects_too,
            Graph.foldl_insert_withRoot _ root, Graph.link_withRoot]
          rfl

/-- No specifier of a graph leads more than a number of directories above the start of the path of
its file, or starts at the root. -/
def Graph.ClimbsAtMost (graph : Graph) (height : Nat) : Prop :=
  ∀ node ∈ graph.nodes, ∀ specifier ∈ node.importPaths, Graph.isFileSpecifier specifier = true →
    Path.isAbsolute ⟨specifier⟩ = false ∧
      ((node.path.parent?.getD ⟨""⟩).join ⟨specifier⟩).climb ≤ height

instance (graph : Graph) (height : Nat) : Decidable (graph.ClimbsAtMost height) :=
  inferInstanceAs (Decidable (∀ node ∈ graph.nodes, ∀ specifier ∈ node.importPaths, _))

/-- A relative root for which the texts of paths alone tell where they lead. -/
structure PlainRoot (files : FileSystem) (root : Path) (patterns : List String) : Prop where
  relative : root.isAbsolute = false
  low : root.climb ≤ 1
  elsewhere : root.normalize ≠ ⟨"."⟩
  listable : files.canList (Path.absolute files.workingDirectory root) = true
  fits : files.FitsFrom root.normalize (Path.absolute files.workingDirectory root)
  fitsBack : files.FitsFrom (Path.absolute files.workingDirectory root) root.normalize
  specifiers : ∀ graph, buildGraph files root patterns = .ok graph →
    graph.ClimbsAtMost root.climb

section Relative

variable {files : FileSystem} {place : Location} (works : files.WorksIn place)
  {root : Path} (relative : root.isAbsolute = false)

include relative

theorem normalize_eq_under_of_climb (low : root.climb ≤ 1) :
    root.normalize =
      under (List.replicate root.climb .parent ++ (namesLeft [] root.steps).map .name) [] := by
  rw [root.normalize_eq_under, Path.normalizeComponents_of_climb relative low]

include works

/-- The absolute form of a relative path goes up from the working directory and then down. -/
theorem absolute_eq_under :
    Path.absolute files.workingDirectory root =
      under (Path.raise (.root :: place.map .name) root.climb ++
        (namesLeft [] root.steps).map .name) [] := by
  have rootBase : IsBase [.root] := ⟨.rooted (by simp), rfl⟩
  have place_named : ∀ name ∈ place, IsName name := fun name name_mem => works.isName name_mem
  have climbs : climbFrom 0 root.steps = root.climb := (Path.climb_eq_of_relative relative).symm
  have normal := Path.normalizeComponents_append_steps (Path.normalizeComponents_rooted place)
    root.root_notMem_steps
  rw [Path.absolute, Path.normalize_eq_under, works.written,
    (Path.isTidy_under rootBase place_named).components_join_relative relative,
    Path.components_under rootBase place_named (by simp), List.singleton_append, normal, climbs]

end Relative

/-- A specifier that climbs no higher than the root stays below the base of the root. -/
theorem climbFrom_eq_zero_of_climb_le {height : Nat} (base : IsBase (List.replicate height .parent))
    {directory : List String} {file : String} (isName : ∀ name ∈ directory ++ [file], IsName name)
    (nonempty : List.replicate height Component.parent ++ directory.map .name ≠ [])
    {specifier : Path} (relative : specifier.isAbsolute = false)
    (low : (((under (List.replicate height .parent) (directory ++ [file])).parent?.getD
      ⟨""⟩).join specifier).climb ≤ height) :
    climbFrom directory.length specifier.steps = 0 := by
  rcases List.forall_mem_append.mp isName with ⟨directory_named, named⟩
  rw [List.forall_mem_singleton] at named
  rw [Path.parent?_under base directory_named nonempty named, Option.getD_some, Path.climb,
    (Path.isTidy_under base directory_named).components_join_relative relative,
    Path.components_under base directory_named nonempty, Path.climbFrom_replicate_append] at low
  omega

/-- A relative root gives the graph that its absolute form gives, moved. -/
theorem buildGraph_absolute {files : FileSystem} {place : Location}
    (works : files.WorksIn place) {root : Path}
    (directory : files.isDirectory root.normalize = true) {patterns : List String}
    (plain : PlainRoot files root patterns) :
    buildGraph files (Path.absolute files.workingDirectory root) patterns =
      (buildGraph files root patterns).map
        (Graph.rebase root.normalize (Path.absolute files.workingDirectory root)) := by
  have topNames := Path.isName_of_mem_namesLeft (by simp : ∀ name ∈ [], IsName name) root
  have root_eq := normalize_eq_under_of_climb plain.relative plain.low
  have full_eq := absolute_eq_under works plain.relative
  have emptyBase : IsBase [] := ⟨.relative (by simp), rfl⟩
  have lowBase : IsBase (List.replicate root.climb .parent) := by
    rw [← Path.raise_nil plain.low]
    exact emptyBase.raise _
  have placeBase : IsBase (.root :: place.map .name) := by
    have rootBase : IsBase [.root] := ⟨.rooted (by simp), rfl⟩
    exact rootBase.append_names fun name name_mem => works.isName name_mem
  have highBase := placeBase.raise root.climb
  have hereStart := Path.isStart_normalizeComponents plain.elsewhere
  rw [Path.normalizeComponents_of_climb plain.relative plain.low] at hereStart
  have thereStart : IsStart (Path.raise (.root :: place.map .name) root.climb ++
      (namesLeft [] root.steps).map .name) := by
    refine ⟨highBase.append_names topNames, ?_⟩
    rcases works.exists_raise plain.low with ⟨steps, -, raised, -⟩
    rw [raised]
    simp
  have same := works.samePlaces plain.low topNames hereStart
  have listable : files.canList root.normalize = true := by
    have isThere := plain.listable
    rw [full_eq] at isThere
    rw [root_eq] at directory ⊢
    exact same.canList directory isThere
  refine buildGraph_respelled lowBase highBase topNames hereStart thereStart same root_eq full_eq
    listable plain.listable plain.fits plain.fitsBack ?_
  intro graph built node node_mem directory file isName path specifier specifier_mem names_file
  rcases plain.specifiers graph built node node_mem specifier specifier_mem names_file with
    ⟨relative, low⟩
  refine ⟨relative, ?_⟩
  rw [path, Path.under_append, ← List.append_assoc] at low
  refine climbFrom_eq_zero_of_climb_le lowBase ?_ ?_ relative low
  · rw [List.append_assoc]
    exact List.forall_mem_append.mpr ⟨topNames, isName⟩
  · rw [List.map_append, ← List.append_assoc]
    exact hereStart.append_ne_nil _

/-- What the spelling of a root means for the graph that is built from it. -/
theorem buildGraph_up_to_spelling {files : FileSystem} {place : Location}
    (works : files.WorksIn place) {root : Path}
    (directory : files.isDirectory root.normalize = true) (patterns : List String) :
    let full := Path.absolute files.workingDirectory root
    (∀ excluded, Glob.Excludes.compile patterns = .ok excluded →
      (files.canList root.normalize = true →
        ∃ graph, buildGraph files root patterns = .ok graph ∧ graph.FollowsRoot root) ∧
      (files.canList root.normalize = false →
        buildGraph files root patterns = .error (.io root.normalize .permissionDenied))) ∧
    (∀ other : Path, other.normalize = root.normalize →
      buildGraph files other patterns =
        (buildGraph files root patterns).map (Graph.withRoot other)) ∧
    (root.isAbsolute = true →
      buildGraph files full patterns =
        (buildGraph files root patterns).map (Graph.withRoot full)) ∧
    (PlainRoot files root patterns →
      buildGraph files full patterns =
        (buildGraph files root patterns).map (Graph.rebase root.normalize full)) := by
  intro full
  refine ⟨?_, ?_, ?_, ?_⟩
  · intro excluded compiled
    refine ⟨fun listable => exists_followsRoot_buildGraph listable compiled, ?_⟩
    intro unlistable
    have denied := FileSystem.sourceFiles_of_not_canList directory unlistable excluded.excludes
      Language.isEcmaScript
    simp [buildGraph, compiled, denied, bind, Except.bind]
  · intro other same
    exact buildGraph_of_normalize_eq files same patterns
  · intro absolute
    have full_eq : full = root.normalize :=
      congrArg Path.normalize (Path.join_of_isAbsolute absolute files.workingDirectory)
    refine buildGraph_of_normalize_eq files ?_ patterns
    rw [full_eq, root.normalize_normalize]
  · intro plain
    exact buildGraph_absolute works directory plain

theorem worksIn_ring : ring.WorksIn ["p"] := by
  refine ⟨by decide, ?_, by decide⟩
  intro front isPrefix
  have directories : ∀ front ∈ ["p"].inits, ring.isDirectoryAt front = true := by decide
  exact directories front ((List.mem_inits _ _).mpr isPrefix)

theorem walk_ring_above : ring.walk ⟨"../p"⟩ = .ok [⟨"../p/a.ts"⟩, ⟨"../p/b.ts"⟩] := by rfl

/-- The directory of the two files, seen from above, is given by a plain root. -/
theorem plainRoot_ring : PlainRoot ring ⟨"../p"⟩ [] := by
  have full : Path.absolute ring.workingDirectory ⟨"../p"⟩ = ⟨"/p"⟩ := by decide
  have here : Path.normalize ⟨"../p"⟩ = ⟨"../p"⟩ := by decide
  refine ⟨by decide, by decide, by decide, by decide, ?_, ?_, ?_⟩
  · rw [full, here]
    intro found walked
    obtain rfl := Except.ok.inj (walk_ring_above.symm.trans walked)
    decide
  · rw [full, here]
    intro found walked
    have walks : ring.walk ⟨"/p"⟩ = .ok [⟨"/p/a.ts"⟩, ⟨"/p/b.ts"⟩] := by rfl
    obtain rfl := Except.ok.inj (walks.symm.trans walked)
    decide
  · intro graph built
    have walks := walk_ring_above
    rw [← here] at walks
    have value := buildGraph_ring_from walks (by decide) (by decide) (by decide) rfl rfl
    obtain rfl := Except.ok.inj (value.symm.trans built)
    decide

theorem buildGraph_ring_up_to_spelling :
    ring.WorksIn ["p"] ∧ ring.isDirectory (Path.normalize ⟨"../p"⟩) = true ∧
      ring.canList (Path.normalize ⟨"../p"⟩) = true ∧ PlainRoot ring ⟨"../p"⟩ [] ∧
      (∃ graph, buildGraph ring ⟨"../p"⟩ [] = .ok graph ∧ graph.FollowsRoot ⟨"../p"⟩) ∧
      (buildGraph ring ⟨"../p"⟩ []).map (Graph.rebase ⟨"../p"⟩ ⟨"/p"⟩) = .ok ringGraph := by
  rcases buildGraph_up_to_spelling worksIn_ring
    (by decide : ring.isDirectory (Path.normalize ⟨"../p"⟩) = true) [] with ⟨follows, -, -, moved⟩
  refine ⟨worksIn_ring, by decide, by decide, plainRoot_ring, (follows ⟨[]⟩ rfl).1 (by decide), ?_⟩
  rw [← buildGraph_ring]
  exact (moved plainRoot_ring).symm

/-- The working directory is no such root: from `.`, the two files do not import each other. -/
theorem buildGraph_ring_current_has_no_edges :
    ∃ graph, buildGraph ring ⟨"."⟩ [] = .ok graph ∧ graph.edgeCount = 0 ∧
      Path.absolute ring.workingDirectory ⟨"."⟩ = ⟨"/p"⟩ ∧
      buildGraph ring ⟨"/p"⟩ [] = .ok ringGraph ∧ ringGraph.edgeCount = 2 := by
  have walked : ring.walk (Path.normalize ⟨"."⟩) = .ok [⟨"./a.ts"⟩, ⟨"./b.ts"⟩] := by rfl
  refine ⟨_, buildGraph_ring_from walked (by decide) (by decide) (by decide) rfl rfl, ?_⟩
  exact ⟨by decide, by decide, buildGraph_ring, by decide⟩

end CodeFacts.Imports
