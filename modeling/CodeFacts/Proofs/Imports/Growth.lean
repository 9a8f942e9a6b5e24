import CodeFacts.Proofs.FileSystem.Reached
import CodeFacts.Proofs.Glob.Excludes
import CodeFacts.Proofs.Imports.Check
import Mathlib.Tactic.Tauto

/-!
# Resolution in growing graphs

What a specifier may name is fixed by the importing file and the specifier, and the graph decides
only which of these paths are files. So a specifier names a file of the graph, and a file that is
new can only draw specifiers to itself: what it does not draw stays as it was. Read backwards, when
files are removed or excluded, nothing changes for a specifier that names a file which is still
there.
-/

namespace CodeFacts

namespace Imports.Graph

/-- The graph without the file of a path. -/
def erase (graph : Graph) (path : Path) : Graph :=
  { graph with
    nodes := graph.nodes.filter fun node => !node.path.same path
    ordered := graph.ordered.filter _ }

theorem mem_locations_insert_iff (graph : Graph) (node : FileNode) (location : List Component) :
    location ∈ (graph.insert node).locations ↔
      location = node.location ∨ location ∈ graph.locations :=
  OrderedList.mem_keys_insertOver FileNode.isKey_location node graph.nodes location

theorem mem_locations_foldl_insert_iff (nodes : List FileNode) (graph : Graph)
    (location : List Component) :
    location ∈ (nodes.foldl insert graph).locations ↔
      location ∈ nodes.map FileNode.location ∨ location ∈ graph.locations := by
  induction nodes generalizing graph with
  | nil => simp
  | cons node rest ih =>
      simp only [List.foldl_cons, ih, mem_locations_insert_iff, List.map_cons, List.mem_cons]
      tauto

theorem mem_locations_erase_iff (graph : Graph) (path : Path) (location : List Component) :
    location ∈ (graph.erase path).locations ↔
      location ∈ graph.locations ∧ location ≠ path.components := by
  simp only [locations, erase, List.mem_map, List.mem_filter, Path.same, Bool.not_eq_true',
    beq_eq_false_iff_ne]
  constructor
  · rintro ⟨node, ⟨node_mem, differs⟩, rfl⟩
    exact ⟨⟨node, node_mem, rfl⟩, differs⟩
  · rintro ⟨⟨node, node_mem, rfl⟩, differs⟩
    exact ⟨node, ⟨node_mem, differs⟩, rfl⟩

/-- The first of some paths among more places is the first among fewer, or stands at none of
these. -/
theorem find?_contains_of_subset {few many : List (List Component)} (subset : few ⊆ many)
    (paths : List Path) :
    paths.find? (fun path => many.contains path.components) =
        paths.find? (fun path => few.contains path.components) ∨
      ∃ found, paths.find? (fun path => many.contains path.components) = some found ∧
        found.components ∉ few := by
  induction paths with
  | nil => exact Or.inl rfl
  | cons path rest ih =>
      by_cases among_many : path.components ∈ many
      · by_cases among_few : path.components ∈ few
        · left
          simp [among_many, among_few]
        · right
          exact ⟨path, by simp [among_many], among_few⟩
      · have not_few : path.components ∉ few := fun among => among_many (subset among)
        simpa [among_many, not_few] using ih

/-- Among more files a specifier names what it names among fewer, or a file that is not one of
these. -/
theorem resolve?_of_subset {few many : Graph} (subset : few.locations ⊆ many.locations)
    (importer : Path) (specifier : String) :
    many.resolve? importer specifier = few.resolve? importer specifier ∨
      ∃ found, many.resolve? importer specifier = some found ∧
        found.components ∉ few.locations := by
  unfold resolve? resolveAmong?
  split
  · exact find?_contains_of_subset subset (candidates importer specifier)
  · exact Or.inl rfl

/-- Excluding files by more patterns leaves fewer files. -/
theorem locations_buildGraph_append {files : FileSystem} {root : Path} {patterns more : List String}
    {full fewer : Graph} (built : buildGraph files root patterns = .ok full)
    (built_less : buildGraph files root (patterns ++ more) = .ok fewer) :
    fewer.locations ⊆ full.locations := by
  rcases exists_of_buildGraph built with ⟨few, collected, compiled, collects, rfl⟩
  rcases exists_of_buildGraph built_less with ⟨many, remaining, compiled_all, collects_less, rfl⟩
  have kept : remaining ⊆ collected := by
    rcases FileSystem.exists_walk_of_sourceFiles collects with ⟨found, walked, rfl⟩
    rcases FileSystem.exists_walk_of_sourceFiles collects_less with ⟨found', walked', rfl⟩
    obtain rfl := Except.ok.inj (walked.symm.trans walked')
    intro path path_mem
    rw [List.mem_mergeSort, List.mem_filter] at path_mem ⊢
    have wanted := FileSystem.isWanted_iff.mp path_mem.2
    refine ⟨path_mem.1, FileSystem.isWanted_iff.mpr ⟨wanted.1, ?_⟩⟩
    by_contra excluded
    rw [Bool.not_eq_false] at excluded
    rw [Glob.Excludes.excludes_of_append compiled compiled_all excluded] at wanted
    simp at wanted
  intro location location_mem
  rw [locations_link, mem_locations_foldl_insert_iff] at location_mem ⊢
  refine location_mem.imp ?_ id
  exact fun among => List.map_subset _ (List.filterMap_subset _ kept) among

/-- A specifier names a file of the graph. A new file changes what a specifier names only if the
specifier comes to name the new file, and leaves no specifier without a file that had one. So
removing a file, or excluding files, changes what a specifier names only if it named such a file. -/
theorem resolve?_stable_under_growth (graph : Graph) (importer : Path) (specifier : String) :
    (∀ found, graph.resolve? importer specifier = some found → graph.contains found = true) ∧
      (∀ node : FileNode,
        ((graph.insert node).resolve? importer specifier = graph.resolve? importer specifier ∨
          ∃ found, (graph.insert node).resolve? importer specifier = some found ∧
            found.same node.path = true) ∧
        ((graph.resolve? importer specifier).isSome = true →
          ((graph.insert node).resolve? importer specifier).isSome = true)) ∧
      (∀ path : Path,
        (graph.erase path).resolve? importer specifier = graph.resolve? importer specifier ∨
          ∃ found, graph.resolve? importer specifier = some found ∧ found.same path = true) ∧
      ∀ (files : FileSystem) (root : Path) (patterns more : List String) (fewer : Graph),
        buildGraph files root patterns = .ok graph →
        buildGraph files root (patterns ++ more) = .ok fewer →
        fewer.resolve? importer specifier = graph.resolve? importer specifier ∨
          ∃ found, graph.resolve? importer specifier = some found ∧
            fewer.contains found = false := by
  refine ⟨?_, ?_, ?_, ?_⟩
  · intro found names
    rw [contains_iff_mem_locations]
    exact contains_of_resolve? names
  · intro node
    have more : graph.locations ⊆ (graph.insert node).locations := by
      intro location location_mem
      exact (graph.mem_locations_insert_iff node location).mpr (Or.inr location_mem)
    rcases resolve?_of_subset more importer specifier with same | ⟨found, names, new⟩
    · exact ⟨Or.inl same, by simp [same]⟩
    · have there := contains_of_resolve? names
      rw [mem_locations_insert_iff] at there
      refine ⟨Or.inr ⟨found, names, ?_⟩, by simp [names]⟩
      exact beq_iff_eq.mpr (there.resolve_right new)
  · intro path
    have less : (graph.erase path).locations ⊆ graph.locations := by
      intro location location_mem
      exact ((graph.mem_locations_erase_iff path location).mp location_mem).1
    rcases resolve?_of_subset less importer specifier with same | ⟨found, names, gone⟩
    · exact Or.inl same.symm
    · have there := contains_of_resolve? names
      rw [mem_locations_erase_iff] at gone
      refine Or.inr ⟨found, names, ?_⟩
      exact beq_iff_eq.mpr (by_contra fun differs => gone ⟨there, differs⟩)
  · intro files root patterns more fewer built built_less
    have less := locations_buildGraph_append built built_less
    rcases resolve?_of_subset less importer specifier with same | ⟨found, names, gone⟩
    · exact Or.inl same.symm
    · refine Or.inr ⟨found, names, ?_⟩
      rwa [← contains_iff_mem_locations, Bool.not_eq_true] at gone

/-- One of two files that import each other, after the other was excluded. -/
def lonelyGraph : Graph where
  root := ⟨"/p"⟩
  nodes := [fileNode ⟨"/p/a.ts"⟩ ⟨[⟨"./b", 1⟩], []⟩]

theorem buildGraph_ring_excluding : buildGraph ring ⟨"/p"⟩ ["b*"] = .ok lonelyGraph := by
  let excluded : Glob.Excludes := ⟨[⟨[.byte 98, .anyRun], .text⟩]⟩
  have compiled : Glob.Excludes.compile ["b*"] = .ok excluded := by with_unfolding_all rfl
  have walked : ring.walk (Path.normalize ⟨"/p"⟩) = .ok [⟨"/p/a.ts"⟩, ⟨"/p/b.ts"⟩] := by rfl
  have wanted : [⟨"/p/a.ts"⟩, ⟨"/p/b.ts"⟩].filter (FileSystem.isWanted (Path.normalize ⟨"/p"⟩)
      excluded.excludes Language.isEcmaScript) = [⟨"/p/a.ts"⟩] := by
    decide +kernel
  have collects : ring.sourceFiles ⟨"/p"⟩ excluded.excludes Language.isEcmaScript =
      .ok [⟨"/p/a.ts"⟩] := by
    rw [FileSystem.sourceFiles_of_walk walked, wanted, List.mergeSort_singleton]
  have node : readNode? ring ⟨"/p/a.ts"⟩ = some (fileNode ⟨"/p/a.ts"⟩ ⟨[⟨"./b", 1⟩], []⟩) := by
    have known : Language.ofPath? ⟨"/p/a.ts"⟩ = some .typeScript := by decide
    have isRead : ring.read ⟨"/p/a.ts"⟩ = .ok (importing "./b") := rfl
    have facts : moduleFacts .typeScript (importing "./b").tree = ⟨[⟨"./b", 1⟩], []⟩ :=
      moduleFacts_importing (by decide) (by decide)
    simp only [readNode?, known, isRead, facts]
  rw [buildGraph_eq_ok compiled collects, List.filterMap_cons_some node]
  rfl

theorem resolve?_stable_without_second_of_ring :
    buildGraph ring ⟨"/p"⟩ [] = .ok ringGraph ∧ buildGraph ring ⟨"/p"⟩ ["b*"] = .ok lonelyGraph ∧
      lonelyGraph.resolve? ⟨"/p/a.ts"⟩ "./b" = none ∧
      ∃ found, ringGraph.resolve? ⟨"/p/a.ts"⟩ "./b" = some found ∧
        lonelyGraph.contains found = false := by
  rcases resolve?_stable_under_growth ringGraph ⟨"/p/a.ts"⟩ "./b" with ⟨-, -, -, excluding⟩
  have dropped : lonelyGraph.resolve? ⟨"/p/a.ts"⟩ "./b" = none := by decide
  refine ⟨buildGraph_ring, buildGraph_ring_excluding, dropped, ?_⟩
  rcases excluding ring ⟨"/p"⟩ [] ["b*"] lonelyGraph buildGraph_ring buildGraph_ring_excluding with
    same | gone
  · rw [dropped] at same
    exact absurd same (by decide)
  · exact gone

end Imports.Graph

end CodeFacts
