import CodeFacts.Proofs.FileSystem.Descent
import CodeFacts.Proofs.Imports.Build
import CodeFacts.Proofs.Imports.Limits

/-!
# What a reported cycle means

A check for cycles that succeeds has analyzed the collected files that can be read, and each of its
issues shows a loop of imports between different ones of them: the source of every file in it holds
a specifier that names the next.
-/

namespace CodeFacts.Imports

/-- Different files, each of which imports the next and the last the first. -/
structure IsImportLoop (files : FileSystem) (analyzed loop : List Path) : Prop where
  two_le_length : 2 ≤ loop.length
  distinct : (loop.map Path.components).Nodup
  known : ∀ path ∈ loop, path ∈ analyzed
  imports : ∀ index source target, loop[index]? = some source →
    loop[(index + 1) % loop.length]? = some target → FileImports files analyzed source target

/-- An issue shows the files of a loop as they are displayed, the first again at the end. -/
structure CycleIssue.Shows (issue : CycleIssue) (root : Path) (loop : List Path) : Prop where
  files : issue.files = (loop ++ loop.take 1).map (Path.display root)
  length : issue.length = loop.length

theorem checkCycles_eq_ofGraph {files : FileSystem} {limits : CycleLimits}
    {patterns : List String} {target root : Path} {graph : Graph}
    (checked : checkedDirectory files (Path.absolute files.workingDirectory target) = root)
    (isDirectory : files.isDirectory root = true)
    (built : buildGraph files root patterns = .ok graph) :
    checkCycles files limits patterns target = CycleReport.ofGraph graph limits := by
  unfold checkCycles
  dsimp only
  rw [checked, if_pos isDirectory, built]

/-- A check fails with a message, or it reports on the graph of the checked directory. -/
theorem checkCycles_cases (files : FileSystem) (limits : CycleLimits) (patterns : List String)
    (target : Path) :
    let root := checkedDirectory files (Path.absolute files.workingDirectory target)
    (∃ message, checkCycles files limits patterns target = .ok (CycleReport.failed message)) ∨
      files.isDirectory root = true ∧ ∃ graph, buildGraph files root patterns = .ok graph ∧
        checkCycles files limits patterns target = CycleReport.ofGraph graph limits := by
  intro root
  cases directory : files.isDirectory root with
  | false =>
      refine Or.inl ⟨"cannot access " ++ (Path.absolute files.workingDirectory target).text, ?_⟩
      unfold checkCycles
      dsimp only
      rw [if_neg (Bool.eq_false_iff.mp directory)]
  | true =>
      cases built : buildGraph files root patterns with
      | error failure =>
          refine Or.inl ⟨failure.message, ?_⟩
          unfold checkCycles
          dsimp only
          rw [if_pos directory, built]
      | ok graph =>
          exact Or.inr ⟨rfl, graph, rfl, checkCycles_eq_ofGraph rfl directory built⟩

/-- A check succeeds by reporting on the graph of the checked directory. -/
theorem exists_graph_of_success {files : FileSystem} {limits : CycleLimits}
    {patterns : List String} {target : Path} {report : CycleReport}
    (returned : checkCycles files limits patterns target = .ok report)
    (success : report.success = true) :
    let root := checkedDirectory files (Path.absolute files.workingDirectory target)
    files.isDirectory root = true ∧
      ∃ graph, buildGraph files root patterns = .ok graph ∧
        CycleReport.ofSearch graph limits (graph.searchCycles limits) = report := by
  rcases checkCycles_cases files limits patterns target with
    ⟨message, fails⟩ | ⟨directory, graph, built, reports⟩
  · obtain rfl := Except.ok.inj (fails.symm.trans returned)
    exact absurd success Bool.false_ne_true
  · rcases (CycleReport.ofGraph_eq_ok_iff graph limits report).mp (reports.symm.trans returned) with
      ⟨-, reported⟩
    exact ⟨directory, graph, built, reported⟩

theorem Graph.ofSearch_issues_length_le (graph : Graph) (limits : CycleLimits) :
    (CycleReport.ofSearch graph limits (graph.searchCycles limits)).issues.length ≤
      limits.maxCycles.toNat := by
  have count_le := (graph.sound_searchCycles limits).count_le
  rwa [CycleReport.ofSearch, List.length_map]

section Loops

variable {files : FileSystem} {analyzed : List Path} {graph : Graph}
  (represents : Represents files analyzed graph)

include represents

theorem Represents.mem_of_writes {path : Path} (writes : graph.Writes path) : path ∈ analyzed := by
  rcases writes with ⟨node, node_mem, path_mem⟩
  rcases List.mem_cons.mp path_mem with rfl | listed
  · exact represents.node node node_mem
  · exact (represents.edge node.path path ⟨node, node_mem, rfl, listed⟩).1

theorem Represents.eq_of_components {first second : Path} (first_mem : first ∈ analyzed)
    (second_mem : second ∈ analyzed) (same : first.components = second.components) :
    first = second :=
  List.inj_on_of_nodup_map represents.distinct first_mem second_mem same

theorem Represents.fileImports {source target : Path} (source_mem : source ∈ analyzed)
    (lists : graph.Lists source target) : FileImports files analyzed source target := by
  rcases (represents.edge source target lists).2.2 with
    ⟨importer, importer_mem, same, imports⟩
  exact represents.eq_of_components importer_mem source_mem same ▸ imports

/-- A cycle of the graph is a loop that is closed by its first file. -/
theorem Represents.exists_closed {cycle : Cycle} (isCycle : graph.IsImportCycle cycle)
    (known : ∀ entry ∈ cycle, entry ∈ analyzed) :
    ∃ first rest, cycle = first :: rest ++ [first] := by
  rcases List.eq_nil_or_concat cycle with rfl | ⟨loop, last, rfl⟩
  · exact absurd isCycle.two_le_length (by simp)
  rw [List.concat_eq_append] at isCycle known ⊢
  cases loop with
  | nil => exact absurd isCycle.two_le_length (by simp)
  | cons first rest =>
      have closed := isCycle.closed
      simp only [List.cons_append, List.head?_cons, Option.map_some, List.getLast?_cons,
        List.getLast?_concat, Option.getD_some, Option.some.injEq] at closed
      have same : first = last :=
        represents.eq_of_components (known first (by simp)) (known last (by simp)) closed
      exact ⟨first, rest, by rw [same]⟩

theorem Represents.isImportLoop {first : Path} {rest : List Path}
    (isCycle : graph.IsImportCycle (first :: rest ++ [first]))
    (known : ∀ entry ∈ first :: rest ++ [first], entry ∈ analyzed) :
    IsImportLoop files analyzed (first :: rest) := by
  have chain := isCycle.chain
  refine ⟨?_, ?_, ?_, ?_⟩
  · cases rest with
    | nil =>
        have self : graph.Lists first first := by simpa using chain
        exact absurd rfl (represents.edge first first self).2.1
    | cons second rest => simp
  · have distinct := isCycle.distinct
    rwa [List.dropLast_concat] at distinct
  · exact fun path path_mem => known path (List.mem_append_left _ path_mem)
  · intro index source target source_at target_at
    have source_mem := List.mem_of_getElem? source_at
    refine represents.fileImports (known source (List.mem_append_left _ source_mem)) ?_
    have index_lt := (List.getElem?_eq_some_iff.mp source_at).1
    have source_in : (first :: rest ++ [first])[index]? = some source := by
      rw [List.getElem?_append_left index_lt, source_at]
    have target_in : (first :: rest ++ [first])[index + 1]? = some target := by
      by_cases inside : index + 1 < (first :: rest).length
      · rw [Nat.mod_eq_of_lt inside] at target_at
        rw [List.getElem?_append_left inside, target_at]
      · have last : index + 1 = (first :: rest).length := by omega
        rw [last, Nat.mod_self] at target_at
        rw [last, List.getElem?_concat_length]
        simpa using target_at
    rcases List.getElem?_eq_some_iff.mp source_in with ⟨_, source_eq⟩
    rcases List.getElem?_eq_some_iff.mp target_in with ⟨next_lt, target_eq⟩
    rw [← source_eq, ← target_eq]
    exact chain.getElem index next_lt

/-- What the report on a graph says about the files that the graph represents. -/
theorem Represents.ofSearch_issue (limits : CycleLimits) {issue : CycleIssue}
    (issue_mem : issue ∈
      (CycleReport.ofSearch graph limits (graph.searchCycles limits)).issues) :
    ∃ loop, IsImportLoop files analyzed loop ∧ issue.Shows graph.root loop ∧
      loop.length ≤ limits.maxLength.toNat := by
  rcases List.mem_map.mp issue_mem with ⟨cycle, cycle_mem, rfl⟩
  have sound := graph.sound_searchCycles limits
  have isCycle := sound.isCycle cycle cycle_mem
  have short := sound.length_le cycle cycle_mem
  have known : ∀ entry ∈ cycle, entry ∈ analyzed := fun entry entry_mem =>
    represents.mem_of_writes (sound.writes cycle cycle_mem entry entry_mem)
  rcases represents.exists_closed isCycle known with ⟨first, rest, rfl⟩
  refine ⟨first :: rest, represents.isImportLoop isCycle known, ⟨rfl, ?_⟩, ?_⟩
  · simp [CycleIssue.ofCycle]
  · simp only [List.length_append, List.length_singleton] at short
    omega

end Loops

/-- A check for cycles that succeeds analyzes the collected files that can be read, keeps the limit
on the number of issues, and reports loops of imports between those files only. -/
theorem checkCycles_reports_import_loops (files : FileSystem) (limits : CycleLimits)
    (patterns : List String) (target : Path) (report : CycleReport)
    (returned : checkCycles files limits patterns target = .ok report)
    (success : report.success = true) :
    let root := checkedDirectory files (Path.absolute files.workingDirectory target)
    ∃ excluded collected,
      Glob.Excludes.compile patterns = .ok excluded ∧
      files.sourceFiles root excluded.excludes Language.isEcmaScript = .ok collected ∧
      (∀ path ∈ collected,
        FileSystem.IsSourceFile root.normalize excluded.excludes Language.isEcmaScript path) ∧
      report.filesAnalyzed = (collected.filter files.canRead).length ∧
      report.issues.length ≤ limits.maxCycles.toNat ∧
      ∀ issue ∈ report.issues, ∃ loop,
        IsImportLoop files (collected.filter files.canRead) loop ∧ issue.Shows root loop ∧
          loop.length ≤ limits.maxLength.toNat := by
  intro root
  rcases exists_graph_of_success returned success with ⟨-, graph, built, rfl⟩
  rcases represents_buildGraph built with
    ⟨rooted, excluded, collected, compiled, collects, represents⟩
  refine ⟨excluded, collected, compiled, collects, ?_, represents.length,
    graph.ofSearch_issues_length_le limits, ?_⟩
  · exact fun path path_mem => ((FileSystem.sourceFiles_spec collects).2 path path_mem).2
  · intro issue issue_mem
    change ∃ loop, _ ∧ issue.Shows (checkedDirectory files _) loop ∧ _
    rw [← rooted]
    exact represents.ofSearch_issue limits issue_mem

/-- A source file with one import. -/
def importing (specifier : String) : SourceFile where
  bytes := ByteArray.empty
  tree :=
    let literal := ⟨"string", true, some "source", ⟨7, 12, 1, 8, 1, 13⟩, "'" ++ specifier ++ "'", []⟩
    let statement := ⟨"import_statement", true, none, ⟨0, 13, 1, 1, 1, 14⟩, "", [literal]⟩
    ⟨"program", true, none, ⟨0, 13, 1, 1, 1, 14⟩, "", [statement]⟩

theorem descendants_importing (specifier : String) :
    (Cursor.ofRoot (importing specifier).tree).descendants =
      Cursor.ofRoot (importing specifier).tree ::
        (Cursor.ofRoot (importing specifier).tree).children ++
          (Cursor.ofRoot (importing specifier).tree).children.flatMap Cursor.children := by
  simp [Cursor.descendants, Cursor.walk, Cursor.walkPending, importing, Cursor.ofRoot,
    Cursor.children]

theorem moduleFacts_importing {specifier : String} (some : specifier ≠ "")
    (unquoted : unquote ("'" ++ specifier ++ "'") = specifier) :
    moduleFacts .typeScript (importing specifier).tree = ⟨[⟨specifier, 1⟩], []⟩ := by
  have sources : importSources (Cursor.ofRoot (importing specifier).tree) =
      (Cursor.ofRoot (importing specifier).tree).children.flatMap Cursor.children := by
    unfold importSources Cursor.descendantsOfKind Cursor.descendantsOfKinds
    rw [descendants_importing]
    refine (List.append_nil _).trans (List.filter_eq_self.mpr ?_)
    intro source source_mem
    have text : source.text = "'" ++ specifier ++ "'" := by
      rw [List.mem_singleton.mp source_mem]
      rfl
    rw [text, unquoted]
    simpa using some
  have imports : importsOf (Cursor.ofRoot (importing specifier).tree) = [⟨specifier, 1⟩] := by
    unfold importsOf
    rw [sources]
    refine (congrArg _ (congrArg _ (List.mergeSort_singleton _))).trans ?_
    change [(⟨unquote ("'" ++ specifier ++ "'"), 1⟩ : ImportSpec)] = _
    rw [unquoted]
  unfold moduleFacts
  dsimp only
  rw [imports]
  rfl

/-- Two files that import each other. -/
def ring : FileSystem where
  entries :=
    [(["p"], .directory), (["p", "a.ts"], .file (importing "./b")),
      (["p", "b.ts"], .file (importing "./a"))]
  workingDirectory := ⟨"/p"⟩

/-- The graph of the two files. -/
def ringGraph : Graph where
  root := ⟨"/p"⟩
  nodes :=
    [⟨⟨"/p/a.ts"⟩, [], ["./b"], [⟨"/p/b.ts"⟩], [⟨"/p/b.ts"⟩], by decide⟩,
      ⟨⟨"/p/b.ts"⟩, [], ["./a"], [⟨"/p/a.ts"⟩], [⟨"/p/a.ts"⟩], by decide⟩]

/-- The graph of the two files from a root below which a walk finds them. -/
theorem buildGraph_ring_from {root first second : Path}
    (walked : ring.walk root.normalize = .ok [first, second])
    (wanted : ∀ path ∈ [first, second],
      FileSystem.isWanted root.normalize (Glob.Excludes.excludes ⟨[]⟩) Language.isEcmaScript path =
        true)
    (ordered : first.le second = true)
    (known : ∀ path ∈ [first, second], Language.ofPath? path = some .typeScript)
    (first_read : ring.read first = .ok (importing "./b"))
    (second_read : ring.read second = .ok (importing "./a")) :
    buildGraph ring root [] =
      .ok ([fileNode first ⟨[⟨"./b", 1⟩], []⟩, fileNode second ⟨[⟨"./a", 1⟩], []⟩].foldl
        Graph.insert (Graph.empty root)).link := by
  rw [List.forall_mem_cons, List.forall_mem_singleton] at known
  have collects : ring.sourceFiles root (Glob.Excludes.excludes ⟨[]⟩) Language.isEcmaScript =
      .ok [first, second] := by
    rw [FileSystem.sourceFiles_of_walk walked, List.filter_eq_self.mpr wanted,
      List.mergeSort_of_pairwise]
    simpa using ordered
  have first_node : readNode? ring first = some (fileNode first ⟨[⟨"./b", 1⟩], []⟩) := by
    unfold readNode?
    rw [known.1, first_read]
    dsimp only
    rw [moduleFacts_importing (by decide) (by decide)]
  have second_node : readNode? ring second = some (fileNode second ⟨[⟨"./a", 1⟩], []⟩) := by
    unfold readNode?
    rw [known.2, second_read]
    dsimp only
    rw [moduleFacts_importing (by decide) (by decide)]
  rw [buildGraph_eq_ok rfl collects, List.filterMap_cons_some first_node,
    List.filterMap_cons_some second_node]
  rfl

theorem buildGraph_ring : buildGraph ring ⟨"/p"⟩ [] = .ok ringGraph := by
  have walked : ring.walk (Path.normalize ⟨"/p"⟩) = .ok [⟨"/p/a.ts"⟩, ⟨"/p/b.ts"⟩] := by rfl
  rw [buildGraph_ring_from walked (by decide) (by decide) (by decide) rfl rfl]
  rfl

theorem checkCycles_reports_ring :
    ∃ report, checkCycles ring {} [] ⟨"."⟩ = .ok report ∧ report.success = true ∧
      report.issues = [⟨["a.ts", "b.ts", "a.ts"], "a.ts → b.ts → a.ts", 2⟩] ∧
      ∀ issue ∈ report.issues, ∃ analyzed loop,
        IsImportLoop ring analyzed loop ∧ issue.Shows ⟨"/p"⟩ loop := by
  have returned : checkCycles ring {} [] ⟨"."⟩ =
      .ok (CycleReport.ofSearch ringGraph {} (ringGraph.searchCycles {})) := by
    rw [checkCycles_eq_ofGraph (by decide) (by decide) buildGraph_ring]
    exact (CycleReport.ofGraph_eq_ok_iff ringGraph {} _).mpr ⟨Or.inl (by decide), rfl⟩
  have root : checkedDirectory ring (Path.absolute ring.workingDirectory ⟨"."⟩) = ⟨"/p"⟩ := by
    decide
  rcases checkCycles_reports_import_loops ring {} [] ⟨"."⟩ _ returned rfl with
    ⟨_, collected, -, -, -, -, -, loops⟩
  rw [root] at loops
  refine ⟨_, returned, rfl, by decide, ?_⟩
  intro issue issue_mem
  rcases loops issue issue_mem with ⟨loop, isLoop, shown, -⟩
  exact ⟨_, loop, isLoop, shown⟩

/-- A collected file that cannot be read is missing in the number of analyzed files. -/
theorem filesAnalyzed_lt {files : FileSystem} {limits : CycleLimits} {patterns : List String}
    {target : Path} {report : CycleReport}
    (returned : checkCycles files limits patterns target = .ok report)
    (success : report.success = true)
    {excluded : Glob.Excludes} (compiled : Glob.Excludes.compile patterns = .ok excluded)
    {collected : List Path}
    (collects : files.sourceFiles (checkedDirectory files
      (Path.absolute files.workingDirectory target)) excluded.excludes Language.isEcmaScript =
        .ok collected)
    {path : Path} (path_mem : path ∈ collected) (unreadable : files.canRead path = false) :
    report.filesAnalyzed < collected.length := by
  rcases exists_graph_of_success returned success with ⟨-, graph, built, rfl⟩
  rcases represents_buildGraph built with
    ⟨-, excluded', collected', compiled', collects', represents⟩
  obtain rfl := Except.ok.inj (compiled.symm.trans compiled')
  obtain rfl := Except.ok.inj (collects.symm.trans collects')
  change graph.nodes.length < collected.length
  rw [represents.length]
  exact List.length_filter_lt_length_iff_exists.mpr ⟨path, path_mem, by simp [unreadable]⟩

theorem checkedDirectory_root (files : FileSystem) :
    checkedDirectory files (Path.absolute files.workingDirectory ⟨"/"⟩) = ⟨"/"⟩ := by
  have absolute : Path.absolute files.workingDirectory ⟨"/"⟩ = ⟨"/"⟩ := by
    rw [Path.absolute, Path.join, if_pos (by decide)]
    decide
  have top : Path.parent? ⟨"/"⟩ = none := by decide
  rw [absolute, checkedDirectory, top]

/-- Not every collected file is analyzed: one whose path is too long is left out. -/
theorem checkCycles_leaves_out_deepFile :
    let files := FileSystem.deepTree
    ∃ report, checkCycles files {} [] ⟨"/"⟩ = .ok report ∧ report.success = true ∧
      ∃ excluded collected, Glob.Excludes.compile [] = .ok excluded ∧
        files.sourceFiles (checkedDirectory files (Path.absolute files.workingDirectory ⟨"/"⟩))
          excluded.excludes Language.isEcmaScript = .ok collected ∧
        report.filesAnalyzed ≠ collected.length := by
  intro files
  have root := checkedDirectory_root files
  have compiled : Glob.Excludes.compile [] = .ok ⟨[]⟩ := rfl
  have readable : files.isUnreadable [] = false := rfl
  have collects := FileSystem.sourceFiles_root readable (Glob.Excludes.excludes ⟨[]⟩)
    Language.isEcmaScript
  have returned : checkCycles files {} [] ⟨"/"⟩ = _ :=
    checkCycles_eq_ofGraph root files.isDirectory_root (buildGraph_eq_ok compiled collects)
  rw [(CycleReport.ofGraph_eq_ok_iff _ _ _).mpr ⟨Or.inl (by decide), rfl⟩] at returned
  rw [← root] at collects
  refine ⟨_, returned, rfl, _, _, compiled, collects, Nat.ne_of_lt ?_⟩
  refine filesAnalyzed_lt returned rfl compiled collects ?_ (FileSystem.canRead_deepFile files)
  rw [root, List.mem_mergeSort, List.mem_filter]
  exact ⟨FileSystem.deepFile_mem_filesBelow, FileSystem.isWanted_deepFile⟩

end CodeFacts.Imports
