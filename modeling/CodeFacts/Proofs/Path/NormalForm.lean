import CodeFacts.Calls.Session
import CodeFacts.Imports.Graph
import CodeFacts.Proofs.Path.Lexical
import CodeFacts.Proofs.Path.Parent

/-!
# Normal forms and joining

A normalized path is written without idle segments, has no `.` unless it is nothing else, and has no
`..` after a name. What is kept of a path is also all that a later step looks at, so normalizing a
directory first changes nothing about the paths that are written below it. Specifiers and the files
of queries are resolved by joining and normalizing, hence they do not depend on how their directory
is written.
-/

namespace CodeFacts

namespace Path

/-- A path as normalization writes it. -/
structure IsNormalForm (path : Path) : Prop where
  /-- No segment is empty or `.` where it means nothing. -/
  tidy : path.IsTidy
  /-- A `.` is the whole path. -/
  current : .current ∈ path.components → path = ⟨"."⟩
  /-- No `..` stands after a name. -/
  parents : path.components.Pairwise fun earlier later =>
    later = .parent → ∀ text, earlier ≠ .name text

theorem normalizeComponents_relative {path : Path} (relative : path.isAbsolute = false) :
    normalizeComponents path.components = normalizeComponents path.steps := by
  rcases components_of_relative relative with same | same <;> rw [same]
  rfl

theorem isAbsolute_join_relative {directory path : Path}
    (directory_relative : directory.isAbsolute = false) (relative : path.isAbsolute = false) :
    (directory.join path).isAbsolute = false := by
  simp only [isAbsolute, beq_eq_false_iff_ne] at *
  unfold join
  split
  · assumption
  · split
    · cases chars : directory.text.toList <;> simp_all
    · cases chars : directory.text.toList with
      | nil =>
          have empty : directory.text = "" := String.toList_inj.mp chars
          simp_all
      | cons first rest => simp_all

/-- Below a directory, normalization goes on from what it keeps of the directory. -/
theorem normalizeComponents_join {path : Path} (relative : path.isAbsolute = false)
    (directory : Path) :
    normalizeComponents (directory.join path).components =
      path.steps.foldl normalizeStep (normalizeComponents directory.components) := by
  cases lead : directory.isAbsolute with
  | true =>
      have joined := isAbsolute_join lead path
      rw [components_of_absolute joined, components_of_absolute lead, steps_join relative,
        ← List.cons_append, normalizeComponents, List.foldl_append]
      rfl
  | false =>
      have joined := isAbsolute_join_relative lead relative
      rw [normalizeComponents_relative joined, normalizeComponents_relative lead,
        steps_join relative, normalizeComponents, List.foldl_append]
      rfl

/-- Normalization keeps of a normalized path what it keeps of the path. -/
theorem normalizeComponents_normalize (path : Path) :
    normalizeComponents path.normalize.components = normalizeComponents path.components := by
  by_cases nothing : normalizeComponents path.components = []
  · simp only [normalize, nothing]
    decide
  · have means := (isPlain_normalizeComponents path).components_ofComponents nothing
    rw [normalize, means, normalizeComponents_normalizeComponents]

theorem normalize_join_normalize (directory path : Path) :
    (directory.normalize.join path).normalize = (directory.join path).normalize := by
  cases lead : path.isAbsolute with
  | true => rw [join_of_isAbsolute lead, join_of_isAbsolute lead]
  | false =>
      unfold normalize
      rw [normalizeComponents_join lead, normalizeComponents_join lead]
      exact congrArg (fun kept => ofComponents (path.steps.foldl normalizeStep kept))
        directory.normalizeComponents_normalize

/-- Of a path the root and at most one `..` are kept, and names after them. -/
theorem exists_normalizeComponents_eq (path : Path) :
    ∃ (front : List Component) (names : List String),
      (∀ component ∈ front, component = .root ∨ component = .parent) ∧
        normalizeComponents path.components = front ++ names.map .name := by
  cases lead : path.isAbsolute with
  | true =>
      refine ⟨.root :: List.replicate (climbFrom 0 path.steps % 2) .parent, _, ?_,
        normalizeComponents_of_absolute lead⟩
      simp
  | false =>
      refine ⟨List.replicate (path.climb % 2) .parent, _, ?_,
        normalizeComponents_of_relative lead⟩
      simp

theorem isNormalForm_normalize (path : Path) : path.normalize.IsNormalForm := by
  rcases path.exists_normalizeComponents_eq with ⟨front, names, top, kept⟩
  by_cases nothing : normalizeComponents path.components = []
  · have dot : path.normalize = ⟨"."⟩ := by rw [normalize, nothing]; rfl
    have means : components ⟨"."⟩ = [.current] := by decide
    refine ⟨path.isTidy_normalize, fun _ => dot, ?_⟩
    rw [dot, means]
    apply List.pairwise_singleton
  · have means := (isPlain_normalizeComponents path).components_ofComponents nothing
    refine ⟨path.isTidy_normalize, ?_, ?_⟩
    · intro current_mem
      rw [normalize, means, kept, List.mem_append, List.mem_map] at current_mem
      rcases current_mem with above | ⟨name, -, same⟩
      · simpa using top _ above
      · exact Component.noConfusion same
    · rw [normalize, means, kept, List.pairwise_append]
      refine ⟨?_, ?_, ?_⟩
      · apply List.pairwise_of_forall_mem_list
        intro earlier earlier_mem later later_mem is_parent text
        rcases top earlier earlier_mem with rfl | rfl <;> simp
      · rw [List.pairwise_map]
        apply List.pairwise_of_forall
        simp
      · simp

/-- A file below a directory has a parent that is normalized like the directory. -/
theorem exists_parent?_join (directory : Path) {file : String} (isName : IsName file) :
    ∃ parent, (directory.join ⟨file⟩).parent? = some parent ∧
      parent.normalize = directory.normalize := by
  have relative : (Path.mk file).isAbsolute = false := by simpa using isName.not_isAbsolute
  have joined : (directory.join ⟨file⟩).steps = directory.steps ++ (Path.mk file).steps :=
    steps_join relative
  have kept := normalizeComponents_join relative directory
  rw [isName.steps_eq] at joined kept
  have means : (directory.join ⟨file⟩).components =
      (directory.join ⟨file⟩).parts.lead.toList ++ directory.steps ++ [.name file] := by
    rw [List.append_assoc, ← joined]
    rfl
  rcases exists_parent? means with ⟨parent, isParent, above⟩
  refine ⟨parent, isParent, ?_⟩
  rw [means, normalizeComponents_concat, ← above] at kept
  unfold normalize
  exact congrArg ofComponents (List.append_cancel_right kept)

end Path

namespace Imports.Graph

/-- What a specifier may name depends on what normalization keeps of the directory. -/
theorem candidates_congr {first second : Path}
    (same : (first.parent?.getD ⟨""⟩).normalize = (second.parent?.getD ⟨""⟩).normalize)
    (specifier : String) : candidates first specifier = candidates second specifier := by
  have written : ((first.parent?.getD ⟨""⟩).join ⟨specifier⟩).normalize =
      ((second.parent?.getD ⟨""⟩).join ⟨specifier⟩).normalize := by
    rw [← Path.normalize_join_normalize, same, Path.normalize_join_normalize]
  simp only [candidates, written]

theorem resolve?_join_normalize (graph : Graph) (directory : Path) {file : String}
    (isName : Path.IsName file) (specifier : String) :
    graph.resolve? (directory.normalize.join ⟨file⟩) specifier =
      graph.resolve? (directory.join ⟨file⟩) specifier := by
  rcases directory.normalize.exists_parent?_join isName with ⟨first, isFirst, first_same⟩
  rcases directory.exists_parent?_join isName with ⟨second, isSecond, second_same⟩
  have same : candidates (directory.normalize.join ⟨file⟩) specifier =
      candidates (directory.join ⟨file⟩) specifier := by
    apply candidates_congr
    rw [isFirst, isSecond, Option.getD_some, Option.getD_some, first_same, second_same,
      directory.normalize_normalize]
  simp only [resolve?, resolveAmong?, same]

end Imports.Graph

namespace Path

/-- Normalized paths are in normal form, and normalizing a directory first changes neither what is
written below it nor what is resolved from it. -/
theorem normalize_composes_with_join :
    (∀ path : Path, path.normalize.IsNormalForm) ∧
      (∀ directory path : Path,
        (directory.normalize.join path).normalize = (directory.join path).normalize) ∧
      (∀ path : Path, path.normalize.normalize = path.normalize) ∧
      (∀ (graph : Imports.Graph) (directory : Path) (file : String), IsName file →
        ∀ specifier, graph.resolve? (directory.normalize.join ⟨file⟩) specifier =
          graph.resolve? (directory.join ⟨file⟩) specifier) ∧
      ∀ (store : Calls.Store) (directory file : Path),
        Calls.Session.resolve ⟨some directory.normalize, store⟩ file =
          Calls.Session.resolve ⟨some directory, store⟩ file := by
  refine ⟨isNormalForm_normalize, normalize_join_normalize, normalize_normalize, ?_, ?_⟩
  · intro graph directory file isName specifier
    exact graph.resolve?_join_normalize directory isName specifier
  · intro store directory file
    simp only [Calls.Session.resolve, normalize_join_normalize]

/-- A graph with one file. -/
def lonelyFile : Imports.Graph :=
  (Imports.Graph.empty ⟨"/p"⟩).insert { (default : Imports.FileNode) with path := ⟨"/p/b.js"⟩ }

/-- A file in an untidy directory imports what it would import from the tidy one. -/
theorem normalize_composes_with_join_of_untidy :
    IsName "a.ts" ∧ Path.normalize ⟨"/p/./src//../lib/"⟩ = ⟨"/p/lib"⟩ ∧
      lonelyFile.resolve? (Path.join (Path.normalize ⟨"/p/./src//../lib/"⟩) ⟨"a.ts"⟩) "../b" =
        some ⟨"/p/b.js"⟩ ∧
      lonelyFile.resolve? (Path.join ⟨"/p/./src//../lib/"⟩ ⟨"a.ts"⟩) "../b" =
        some ⟨"/p/b.js"⟩ := by
  rcases normalize_composes_with_join with ⟨-, -, -, resolves, -⟩
  have isName : IsName "a.ts" := by decide
  have found : lonelyFile.resolve?
      (Path.join (Path.normalize ⟨"/p/./src//../lib/"⟩) ⟨"a.ts"⟩) "../b" = some ⟨"/p/b.js"⟩ := by
    decide
  exact ⟨isName, by decide, found, (resolves _ _ _ isName _).symm.trans found⟩

end Path

end CodeFacts
