import CodeFacts.Proofs.Imports.Nodes
import CodeFacts.Proofs.Path.NormalForm
import Mathlib.Data.Set.List

/-!
# Importing a file by its relative path

From the directory of one file another file is reached by going up to a directory above both and
then down by the names that are left. Written as a specifier, this way leads to the other file in
every graph: joined to the directory and normalized it is the path of the file, and what a specifier
names as it is written comes before all else that it may name.
-/

namespace CodeFacts

namespace Path

/-- An absolute path without `.` and `..`. -/
structure IsClean (path : Path) : Prop where
  absolute : path.isAbsolute = true
  noCurrent : .current ∉ path.components
  noParent : .parent ∉ path.components

theorem isClean_iff (path : Path) :
    path.IsClean ↔
      path.isAbsolute = true ∧ .current ∉ path.components ∧ .parent ∉ path.components :=
  ⟨fun ⟨absolute, noCurrent, noParent⟩ => ⟨absolute, noCurrent, noParent⟩,
    fun ⟨absolute, noCurrent, noParent⟩ => ⟨absolute, noCurrent, noParent⟩⟩

instance (path : Path) : Decidable path.IsClean :=
  decidable_of_iff _ path.isClean_iff.symm

theorem IsClean.exists_isRooted {path : Path} (clean : path.IsClean) :
    ∃ names, path.IsRooted names := by
  have written := components_of_absolute clean.absolute
  have named : path.steps ∈ Set.range (List.map Component.name) := by
    rw [Set.range_list_map]
    intro component component_mem
    have among : component ∈ path.components := by
      rw [written]
      exact List.mem_cons_of_mem _ component_mem
    cases component with
    | root => exact absurd component_mem path.root_notMem_steps
    | current => exact absurd among clean.noCurrent
    | parent => exact absurd among clean.noParent
    | name text => exact ⟨text, rfl⟩
  rcases named with ⟨names, same⟩
  exact ⟨names, by rw [IsRooted, written, same]⟩

/-- Every `../` in front of a text is a segment of its own. -/
theorem splitSlashes_climb (height : Nat) (rest : List Char) :
    splitSlashes ((List.replicate height "../").flatMap String.toList ++ rest) =
      List.replicate height ['.', '.'] ++ splitSlashes rest := by
  induction height with
  | zero => rfl
  | succ height ih =>
      have up := splitSlashes_append_slash ['.', '.']
        ((List.replicate height "../").flatMap String.toList ++ rest)
      rw [ih] at up
      simpa [List.replicate_succ, splitSlashes] using up

end Path

namespace Imports.Graph

open CodeFacts.Path (IsRooted)

/-- The specifier that goes up a number of directories and then down by components. -/
def relativeSpecifier (height : Nat) (below : List Component) : String :=
  "./" ++ String.join (List.replicate height "../") ++ "/".intercalate (below.map Component.text)

theorem toList_relativeSpecifier (height : Nat) (below : List Component) :
    (relativeSpecifier height below).toList =
      ['.'] ++ '/' :: ((List.replicate height "../").flatMap String.toList ++
        Path.joinSlashes (Path.texts below)) := by
  simp [relativeSpecifier, Path.joinSlashes_eq_intercalate, Path.texts, Function.comp_def]

theorem isAbsolute_relativeSpecifier (height : Nat) (below : List Component) :
    Path.isAbsolute ⟨relativeSpecifier height below⟩ = false := by
  simp [Path.isAbsolute, toList_relativeSpecifier]

theorem isFileSpecifier_relativeSpecifier (height : Nat) (below : List Component) :
    isFileSpecifier (relativeSpecifier height below) = true := by
  simp [isFileSpecifier, toList_relativeSpecifier]

theorem steps_relativeSpecifier (height : Nat) {below : List Component} (some : below ≠ [])
    (isStep : ∀ component ∈ below, Path.IsStep component) :
    Path.steps ⟨relativeSpecifier height below⟩ = List.replicate height .parent ++ below := by
  have segments : Path.segments ⟨relativeSpecifier height below⟩ =
      ['.'] :: (List.replicate height ['.', '.'] ++ Path.texts below) := by
    rw [Path.segments, toList_relativeSpecifier, Path.splitSlashes_append_slash,
      Path.splitSlashes_climb, Path.splitSlashes_joinSlashes (by simpa [Path.texts] using some)
        (Path.noSlash_of_mem_texts isStep)]
    rfl
  have dot : Path.segmentComponent? ['.'] = none := by decide
  have dots : Path.segmentComponent? ['.', '.'] = Option.some .parent := by decide
  rw [← Path.filterMap_segments, segments, List.filterMap_cons_none dot, List.filterMap_append,
    Path.filterMap_texts isStep, List.filterMap_replicate_of_some dots]

theorem foldl_normalizeStep_names (kept : List Component) (names : List String) :
    (names.map Component.name).foldl Path.normalizeStep kept = kept ++ names.map .name := by
  induction names generalizing kept with
  | nil => simp
  | cons name names ih => simp [Path.normalizeStep, ih]

/-- From a directory, a relative specifier leads up and then down. -/
theorem components_normalize_join_relativeSpecifier {directory above : Path} {names : List String}
    (rooted : directory.IsRooted names) {height : Nat}
    (isAbove : directory.ancestor? height = some above) {below : List String} (some : below ≠ [])
    (isName : ∀ name ∈ below, Path.IsName name) :
    ((directory.join ⟨relativeSpecifier height (below.map .name)⟩).normalize).components =
      above.components ++ below.map .name := by
  rcases rooted.ancestor? isAbove with ⟨climbed, -⟩
  have nonempty : below.map Component.name ≠ [] := by simpa using some
  have isStep : ∀ component ∈ below.map Component.name, Path.IsStep component :=
    List.forall_mem_map.mpr isName
  have kept : Path.normalizeComponents
      (directory.join ⟨relativeSpecifier height (below.map .name)⟩).components =
        above.components ++ below.map .name := by
    rw [Path.normalizeComponents_join (isAbsolute_relativeSpecifier _ _),
      steps_relativeSpecifier height nonempty isStep, rooted, Path.normalizeComponents_rooted,
      List.foldl_append, ← rooted, climbed, foldl_normalizeStep_names]
  rw [Path.normalize, (Path.isPlain_normalizeComponents _).components_ofComponents, kept]
  simp [kept, some]

/-- A file of a graph is imported by its path relative to the importing file, whatever else there is
in the graph. -/
theorem resolve?_relativeSpecifier {graph : Graph}
    (clean : ∀ node ∈ graph.nodes, node.path.IsClean) {importer target : FileNode}
    (importer_mem : importer ∈ graph.nodes) (target_mem : target ∈ graph.nodes)
    {directory above : Path} (parent : importer.path.parent? = some directory) {height : Nat}
    (isAbove : directory.ancestor? height = some above) {below : List Component}
    (proper : below ≠ []) (reaches : target.path.components = above.components ++ below) :
    ∃ found, graph.resolve? importer.path (relativeSpecifier height below) = some found ∧
      found.same target.path = true := by
  rcases (clean importer importer_mem).exists_isRooted with ⟨importerNames, importer_rooted⟩
  rcases (clean target target_mem).exists_isRooted with ⟨targetNames, target_rooted⟩
  rcases importer_rooted.of_parent? parent with ⟨names, -, -, rooted⟩
  rcases rooted.ancestor? isAbove with ⟨-, front, above_rooted⟩
  obtain ⟨belowNames, rfl⟩ : ∃ belowNames : List String, below = belowNames.map .name := by
    rw [target_rooted, above_rooted, List.cons_append, List.cons.injEq] at reaches
    rcases List.map_eq_append_iff.mp reaches.2 with ⟨-, belowNames, -, -, same⟩
    exact ⟨belowNames, same.symm⟩
  have isName : ∀ name ∈ belowNames, Path.IsName name := by
    intro name name_mem
    have among : .name name ∈ target.path.components := by
      rw [reaches]
      exact List.mem_append_right _ (List.mem_map_of_mem name_mem)
    exact Path.isName_of_mem_components among
  have written := components_normalize_join_relativeSpecifier rooted isAbove (by simpa using proper)
    isName
  rw [← reaches] at written
  refine ⟨_, ?_, beq_iff_eq.mpr written⟩
  have known : target.path.components ∈ graph.locations := List.mem_map_of_mem target_mem
  simp [resolve?, resolveAmong?, isFileSpecifier_relativeSpecifier, candidates, parent, written,
    known]

/-- Files that a specifier for the second of them may also name. -/
def crowdedGraph : Graph where
  root := ⟨"/p"⟩
  nodes := [.ofImports ⟨"/p/src//lib/a.ts"⟩ [], .ofImports ⟨"/p/src/util/b"⟩ [],
    .ofImports ⟨"/p/src/util/b/index.ts"⟩ [], .ofImports ⟨"/p/src/util/b.js"⟩ [],
    .ofImports ⟨"/p/src/util/b.ts"⟩ []]

theorem resolve?_relativeSpecifier_of_crowdedGraph :
    (∀ node ∈ crowdedGraph.nodes, node.path.IsClean) ∧
      Path.parent? ⟨"/p/src//lib/a.ts"⟩ = some ⟨"/p/src//lib"⟩ ∧
      Path.ancestor? 1 ⟨"/p/src//lib"⟩ = some ⟨"/p/src"⟩ ∧
      relativeSpecifier 1 [.name "util", .name "b"] = "./../util/b" ∧
      ∃ found, crowdedGraph.resolve? ⟨"/p/src//lib/a.ts"⟩ "./../util/b" = some found ∧
        found.same ⟨"/p/src/util/b"⟩ = true := by
  have clean : ∀ node ∈ crowdedGraph.nodes, node.path.IsClean := by decide
  have importer_mem : .ofImports ⟨"/p/src//lib/a.ts"⟩ [] ∈ crowdedGraph.nodes := by decide
  have target_mem : .ofImports ⟨"/p/src/util/b"⟩ [] ∈ crowdedGraph.nodes := by decide
  have parent : Path.parent? ⟨"/p/src//lib/a.ts"⟩ = some ⟨"/p/src//lib"⟩ := by decide
  have above : Path.ancestor? 1 ⟨"/p/src//lib"⟩ = some ⟨"/p/src"⟩ := by decide
  have written : relativeSpecifier 1 [.name "util", .name "b"] = "./../util/b" := by decide
  refine ⟨clean, parent, above, written, ?_⟩
  rw [← written]
  exact resolve?_relativeSpecifier clean importer_mem target_mem parent above (by decide)
    (by decide)

end Imports.Graph

end CodeFacts
