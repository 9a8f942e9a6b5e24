import CodeFacts.Proofs.Firsts
import CodeFacts.Proofs.Imports.Comments
import CodeFacts.Proofs.Tree.Preorder
import Mathlib.Data.List.TakeWhile

/-!
# The specifiers and exports of a module

The literals that name modules are collected in two passes over a tree, one for statements and
`require` calls and one for dynamic imports, and put in the order of their offsets. What is listed
is told here without the passes: every specifier that occurs somewhere in the tree is listed once,
where it occurs first, and with the line of that occurrence. An empty literal names a module in a
dynamic import only.

The exports are the names that the export statements of the top level mention, in the order of their
first mention.
-/

namespace CodeFacts.Imports

/-- The literals in an `import`, in an `export … from` and in a call of `require`, at any depth. -/
inductive IsStaticSource (root : Cursor) : Cursor → Prop
  | imported {statement source : Cursor} :
      root.Contains statement → statement.kind = "import_statement" →
      source ∈ statement.childrenByField "source" → isStringNode source = true →
      IsStaticSource root source
  | reexported {statement source : Cursor} :
      root.Contains statement → statement.kind = "export_statement" →
      source ∈ statement.childrenByField "source" → isStringNode source = true →
      IsStaticSource root source
  | required {call callee list source : Cursor} :
      root.Contains call → call.kind = "call_expression" →
      callee ∈ call.childrenByField "function" → callee.kind = "identifier" →
      callee.node.named = true → callee.text = "require" →
      list ∈ call.childrenByField "arguments" → list.kind = "arguments" →
      source ∈ list.children → isStringNode source = true →
      IsStaticSource root source

/-- A literal that is the first argument of a dynamic `import(…)`, at any depth. -/
inductive IsDynamicSource (root : Cursor) : Cursor → Prop
  | intro {call callee list source : Cursor} :
      root.Contains call → call.kind = "call_expression" →
      call.childByField? "function" = some callee → callee.kind = "import" →
      call.childByField? "arguments" = some list →
      list.namedChildren.head? = some source → source.kind = "string" →
      IsDynamicSource root source

/-- A literal names a module: one that is not empty in a statement or a call of `require`, or any in
a dynamic import. -/
def NamesModule (root source : Cursor) : Prop :=
  IsStaticSource root source ∧ unquote source.text ≠ "" ∨ IsDynamicSource root source

/-- No literal of the tree that names the same module stands before this one. -/
structure IsEarliest (root source : Cursor) : Prop where
  names : NamesModule root source
  earliest : ∀ other, NamesModule root other → unquote other.text = unquote source.text →
    source.span.startByte ≤ other.span.startByte

/-- The imports of a tree are the specifiers that occur in it, each once and where it occurs first,
in the order of the text. -/
structure ListsSpecifiers (root : Cursor) (imports : List ImportSpec) : Prop where
  distinct : (imports.map ImportSpec.specifier).Nodup
  complete : ∀ specifier, specifier ∈ imports.map ImportSpec.specifier ↔
    ∃ source, NamesModule root source ∧ unquote source.text = specifier
  taken : ∃ sources : List Cursor, imports = sources.map ImportSpec.ofSource ∧
    (sources.Pairwise fun first second => first.span.startByte ≤ second.span.startByte) ∧
    ∀ source ∈ sources, IsEarliest root source

section Sources

variable {root source : Cursor}

theorem mem_staticSources_iff :
    (∃ cursor, root.Contains cursor ∧ source ∈ staticSources cursor) ↔
      IsStaticSource root source := by
  constructor
  · rintro ⟨cursor, inside, source_mem⟩
    unfold staticSources at source_mem
    split at source_mem
    · rename_i statement
      simp only [List.mem_filter] at source_mem
      simp only [Bool.or_eq_true, beq_iff_eq] at statement
      rcases statement with imports | exports
      · exact .imported inside imports source_mem.1 source_mem.2
      · exact .reexported inside exports source_mem.1 source_mem.2
    · split at source_mem
      · rename_i calls
        simp only [Bool.and_eq_true, beq_iff_eq, isRequireCall, List.any_eq_true] at calls
        simp only [List.mem_flatMap, List.mem_filter, beq_iff_eq] at source_mem
        rcases calls with ⟨isCall, callee, callee_mem, ⟨identifier, named⟩, require⟩
        rcases source_mem with ⟨list, ⟨list_mem, isList⟩, listed, literal⟩
        exact .required inside isCall callee_mem identifier named require list_mem isList listed
          literal
      · simp at source_mem
  · intro isSource
    cases isSource with
    | imported inside kind source_mem literal =>
        exact ⟨_, inside, by simp [staticSources, kind, source_mem, literal]⟩
    | reexported inside kind source_mem literal =>
        exact ⟨_, inside, by simp [staticSources, kind, source_mem, literal]⟩
    | required inside kind callee_mem identifier named require list_mem isList listed literal =>
        have calls : isRequireCall _ = true :=
          List.any_eq_true.mpr ⟨_, callee_mem, by simp [identifier, named, require]⟩
        refine ⟨_, inside, ?_⟩
        simp only [staticSources, kind, calls]
        simpa using ⟨_, ⟨list_mem, isList⟩, listed, literal⟩

theorem mem_dynamicSources_iff :
    source ∈ (root.descendantsOfKind "call_expression").filterMap dynamicSource? ↔
      IsDynamicSource root source := by
  simp only [List.mem_filterMap, Cursor.mem_descendantsOfKind_iff]
  constructor
  · rintro ⟨call, ⟨inside, isCall⟩, found⟩
    rw [dynamicSource?_eq] at found
    split at found
    · rename_i dynamic
      rcases (Option.any_eq_true _ _).mp dynamic with ⟨callee, called, isImport⟩
      rcases Option.filter_eq_some_iff.mp found with ⟨first, literal⟩
      rcases Option.bind_eq_some_iff.mp first with ⟨list, listed, head⟩
      exact .intro inside isCall called (by simpa using isImport) listed head
        (by simpa using literal)
    · simp at found
  · rintro ⟨inside, isCall, called, isImport, listed, first, literal⟩
    exact ⟨_, ⟨inside, isCall⟩, by simp [dynamicSource?, called, isImport, listed, first, literal]⟩

/-- The two passes over a tree collect the literals that name modules. -/
theorem mem_importSources_iff : source ∈ importSources root ↔ NamesModule root source := by
  simp only [importSources, List.mem_append, mem_dynamicSources_iff, List.mem_filter,
    List.mem_flatMap, Cursor.mem_descendants_iff, bne_iff_ne, mem_staticSources_iff, NamesModule]

end Sources

section Sorting

/-- The literals of a tree in the order of the text. -/
def sortedSources (root : Cursor) : List Cursor :=
  (importSources root).mergeSort fun first second =>
    decide (first.span.startByte ≤ second.span.startByte)

theorem mem_sortedSources_iff {root source : Cursor} :
    source ∈ sortedSources root ↔ NamesModule root source := by
  simp only [sortedSources, List.mem_mergeSort, mem_importSources_iff]

theorem pairwise_sortedSources (root : Cursor) :
    (sortedSources root).Pairwise fun first second =>
      first.span.startByte ≤ second.span.startByte := by
  have sorted := @List.pairwise_mergeSort Cursor
    (fun first second => decide (first.span.startByte ≤ second.span.startByte))
    (by intro first second third; simp; omega) (by intro first second; simp; omega)
    (importSources root)
  simpa [sortedSources] using sorted

theorem firstOfEachSpecifier_eq_firstsBy (specs : List ImportSpec) :
    firstOfEachSpecifier specs = firstsBy ImportSpec.specifier specs := by
  induction specs with
  | nil => rfl
  | cons spec rest ih => simp [firstOfEachSpecifier, firstsBy, ih]

/-- The imports of a tree are read off the first literal of each specifier. -/
theorem importsOf_eq (root : Cursor) :
    importsOf root =
      (firstsBy (fun source => unquote source.text) (sortedSources root)).map
        ImportSpec.ofSource := by
  simp only [importsOf, firstOfEachSpecifier_eq_firstsBy, firstsBy_map]
  rfl

theorem listsSpecifiers_importsOf (root : Cursor) : ListsSpecifiers root (importsOf root) := by
  let specifierOf : Cursor → String := fun source => unquote source.text
  have listed : (importsOf root).map ImportSpec.specifier =
      (firstsBy specifierOf (sortedSources root)).map specifierOf := by
    simp only [importsOf_eq, List.map_map]
    rfl
  refine ⟨?_, ?_, firstsBy specifierOf (sortedSources root), importsOf_eq root, ?_, ?_⟩
  · rw [listed]
    exact List.pairwise_map.mpr (pairwise_firstsBy specifierOf _)
  · intro specifier
    simp only [listed, List.mem_map]
    constructor
    · rintro ⟨source, first, rfl⟩
      exact ⟨source, mem_sortedSources_iff.mp (mem_of_mem_firstsBy specifierOf first), rfl⟩
    · rintro ⟨source, names, rfl⟩
      exact exists_mem_firstsBy specifierOf (mem_sortedSources_iff.mpr names)
  · exact (pairwise_sortedSources root).sublist (firstsBy_sublist specifierOf _)
  · intro source first
    refine ⟨mem_sortedSources_iff.mp (mem_of_mem_firstsBy specifierOf first), ?_⟩
    intro other names same
    rcases eq_or_rel_of_mem_firstsBy specifierOf (pairwise_sortedSources root) first
      (mem_sortedSources_iff.mpr names) same with rfl | before
    · exact le_refl _
    · exact before

end Sorting

section EmptySpecifiers

/-- A literal with nothing but quotes in it. -/
def IsHollow (literal : String) : Prop :=
  ∀ char ∈ literal.toList, isQuote char = true

/-- A literal is hollow if nothing of it is left without its quotes. -/
theorem unquote_eq_empty_iff (literal : String) : unquote literal = "" ↔ IsHollow literal := by
  rw [unquote, ← String.toList_inj, String.toList_ofList, String.toList_empty,
    List.reverse_eq_nil_iff, List.dropWhile_eq_nil_iff, IsHollow]
  simp only [List.mem_reverse]
  constructor
  · intro quotes
    -- What is left at the front would start with something that is no quote.
    cases rest : literal.toList.dropWhile isQuote with
    | nil => exact List.dropWhile_eq_nil_iff.mp rest
    | cons first others =>
        have stops := List.head?_dropWhile_not isQuote literal.toList
        rw [rest] at stops quotes
        simp [quotes first List.mem_cons_self] at stops
  · intro hollow char char_mem
    exact hollow char ((List.dropWhile_sublist _).subset char_mem)

/-- A literal that names no module in words comes from a dynamic import. -/
theorem NamesModule.isDynamicSource {root source : Cursor} (names : NamesModule root source)
    (empty : unquote source.text = "") : IsDynamicSource root source := by
  rcases names with ⟨-, nonempty⟩ | dynamic
  · exact absurd empty nonempty
  · exact dynamic

/-- An empty specifier stands for the first dynamic import with a hollow literal. -/
theorem exists_first_hollow {root : Cursor} {spec : ImportSpec} (spec_mem : spec ∈ importsOf root)
    (empty : spec.specifier = "") :
    ∃ source, spec = ImportSpec.ofSource source ∧ IsDynamicSource root source ∧
      IsHollow source.text ∧
      ∀ other, IsDynamicSource root other → IsHollow other.text →
        source.span.startByte ≤ other.span.startByte := by
  rcases (listsSpecifiers_importsOf root).taken with ⟨sources, taken, -, earliest⟩
  rw [taken] at spec_mem
  rcases List.mem_map.mp spec_mem with ⟨source, source_mem, rfl⟩
  have found := earliest source source_mem
  have hollow := (unquote_eq_empty_iff _).mp empty
  refine ⟨source, rfl, found.names.isDynamicSource empty, hollow, ?_⟩
  intro other dynamic otherHollow
  refine found.earliest other (Or.inr dynamic) ?_
  rw [(unquote_eq_empty_iff _).mpr otherHollow]
  exact empty.symm

/-- No specifier of a module is empty exactly if none of its dynamic imports has a hollow literal,
and an empty specifier stands for the first that has. Hollow literals of statements and `require`
calls are dropped. -/
theorem empty_specifier_listed_iff_hollow_dynamic_import {language : Language}
    (ecmaScript : language.isEcmaScript = true) (tree : Node) :
    ((∀ spec ∈ (moduleFacts language tree).imports, spec.specifier ≠ "") ↔
      ∀ source, IsDynamicSource (.ofRoot tree) source → ¬IsHollow source.text) ∧
    ∀ spec ∈ (moduleFacts language tree).imports, spec.specifier = "" →
      ∃ source, spec = ImportSpec.ofSource source ∧ IsDynamicSource (.ofRoot tree) source ∧
        IsHollow source.text ∧
        ∀ other, IsDynamicSource (.ofRoot tree) other → IsHollow other.text →
          source.span.startByte ≤ other.span.startByte := by
  simp only [moduleFacts, ecmaScript, if_true]
  refine ⟨⟨?_, ?_⟩, fun spec => exists_first_hollow⟩
  · intro nonempty source dynamic hollow
    have listed := ((listsSpecifiers_importsOf (.ofRoot tree)).complete "").mpr
      ⟨source, Or.inr dynamic, (unquote_eq_empty_iff _).mpr hollow⟩
    rcases List.mem_map.mp listed with ⟨spec, spec_mem, empty⟩
    exact nonempty spec spec_mem empty
  · intro full spec spec_mem empty
    rcases exists_first_hollow spec_mem empty with ⟨source, -, dynamic, hollow, -⟩
    exact full source dynamic hollow

/-- A module that imports, requires, exports and, when it runs, imports again, each from an empty
literal. -/
def hollowModule : Node :=
  around "program" "import '';require('');export * from '';import('')" none 0
    [around "import_statement" "import ''" none 0 [leaf "string" "''" (some "source") 7],
      callOf "identifier" "require" 10 "('')" [leaf "string" "''" none 18],
      around "export_statement" "export * from ''" none 22
        [leaf "string" "''" (some "source") 36],
      callOf "import" "import" 39 "('')" [leaf "string" "''" none 46]]

theorem mem_imports_hollowModule : ⟨"", 1⟩ ∈ (moduleFacts .javaScript hollowModule).imports := by
  change _ ∈ importsOf (.ofRoot hollowModule)
  rw [importsOf, List.mergeSort_of_pairwise (by decide +kernel)]
  decide +kernel

/-- The three other forms drop the literal, and the dynamic import lists it. -/
theorem hollowModule_lists_empty_specifier :
    Language.javaScript.isEcmaScript = true ∧
      ∃ spec ∈ (moduleFacts .javaScript hollowModule).imports, spec.specifier = "" :=
  ⟨rfl, _, mem_imports_hollowModule, rfl⟩

/-- Of the four literals it is that of the dynamic import which is listed. -/
theorem hollowModule_takes_empty_specifier_from_dynamic_import :
    Language.javaScript.isEcmaScript = true ∧
      ∃ source, ImportSpec.ofSource source ∈ (moduleFacts .javaScript hollowModule).imports ∧
        IsDynamicSource (.ofRoot hollowModule) source ∧ IsHollow source.text := by
  have facts := @empty_specifier_listed_iff_hollow_dynamic_import .javaScript rfl hollowModule
  rcases facts.2 _ mem_imports_hollowModule rfl with ⟨source, same, dynamic, hollow, -⟩
  exact ⟨rfl, source, same ▸ mem_imports_hollowModule, dynamic, hollow⟩

end EmptySpecifiers

end CodeFacts.Imports
