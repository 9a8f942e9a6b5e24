import CodeFacts.Proofs.FileSystem.Reached
import CodeFacts.Proofs.Unused.UnreadNames
import CodeFacts.Unused.Report

/-!
# Reports on directories

The report on a directory is put together from those on its files: the issues are those of the
collected files, one file after the other in the order of their paths. A file that cannot be checked
contributes nothing, and changes nothing about the others. A collected file that is checked alone
gives its share. For this it matters that a walk finds no directories: otherwise checking what was
found would start another walk.

A target is turned into a normalized path before it is looked up. Normalization goes by the text,
so for a directory that is reached by going up from where a link leads it may give a path that
leads nowhere, and then the check fails although the directory is there. It also fails for a
directory that may not be listed.
-/

namespace CodeFacts

theorem Failure.message_noSuchTarget (path : Path) :
    (Failure.io path .noSuchTarget).message =
      "I/O error at " ++ path.text ++ ": no such file or directory" := by
  have words : ": " ++ FileFault.noSuchTarget.message = ": no such file or directory" := by decide
  rw [message_io, String.append_assoc, words]

theorem Failure.message_permissionDenied (path : Path) :
    (Failure.io path .permissionDenied).message =
      "I/O error at " ++ path.text ++ ": Permission denied (os error 13)" := by
  have words :
      ": " ++ FileFault.permissionDenied.message = ": Permission denied (os error 13)" := by decide
  rw [message_io, String.append_assoc, words]

namespace Unused

/-- What a file contributes to a report: its issues, or nothing if it cannot be checked. -/
def share (files : FileSystem) (options : Options) (path : Path) : List Issue :=
  match checkFile files options path with
  | .ok issues => issues
  | .error _ => []

/-- A report is put together from the reports on single files. -/
structure Concatenates (files : FileSystem) (options : Options) (paths : List Path)
    (report : Report) : Prop where
  success : report.success = true
  error : report.error = none
  issues : report.issues = paths.flatMap (share files options)
  filesAnalyzed : report.filesAnalyzed =
    (paths.filter fun path => (checkFile files options path).isOk).length
  counts : (report.counts.map Prod.snd).sum = report.issues.length

theorem Report.sum_counts (report : Report) :
    (report.counts.map Prod.snd).sum = report.issues.length := by
  have total : ∀ issues : List Issue,
      ((IssueKind.all.map fun kind => (issues.filter fun issue => issue.kind == kind).length).sum =
        issues.length) := by
    intro issues
    induction issues with
    | nil => rfl
    | cons issue rest ih =>
        cases kind : issue.kind <;> simp [IssueKind.all, kind] at ih ⊢ <;> omega
  simpa [counts, Function.comp_def] using total report.issues

theorem concatenates_ofOutcomes (files : FileSystem) (options : Options) (paths : List Path) :
    Concatenates files options paths (Report.ofOutcomes (paths.map (checkFile files options))) := by
  refine ⟨rfl, rfl, ?_, ?_, Report.sum_counts _⟩
  · simp only [Report.ofOutcomes]
    induction paths with
    | nil => rfl
    | cons path rest ih =>
        cases checked : checkFile files options path <;>
          simpa [checked, share, Except.toOption] using ih
  · simp only [Report.ofOutcomes]
    induction paths with
    | nil => rfl
    | cons path rest ih =>
        cases checked : checkFile files options path <;>
          simpa [checked, Except.toOption, Except.isOk, Except.toBool] using ih

theorem share_of_not_isFile {files : FileSystem} {path : Path}
    (noFile : files.isFile path = false) (options : Options) : share files options path = [] := by
  have unreadable : ∀ source, files.read path ≠ .ok source := by
    intro source readable
    rw [FileSystem.isFile_of_read readable] at noFile
    contradiction
  unfold share checkFile
  cases Language.ofPath? path with
  | none => rfl
  | some language =>
      cases read : files.read path with
      | error fault => simp
      | ok source => exact absurd read (unreadable source)

/-- What is checked alone and is no directory gives its share. -/
theorem issues_check_of_not_isDirectory {files : FileSystem} {path : Path} (normal : path.IsNormal)
    (noDirectory : files.isDirectory path = false) (options : Options) (patterns : List String) :
    (check files options patterns path).issues = share files options path := by
  have absolute : Path.absolute files.workingDirectory path = path := by
    rw [Path.absolute, Path.join_of_isAbsolute normal.absolute, normal.normalized]
  unfold check
  rw [absolute, targetFiles]
  cases isFile : files.isFile path with
  | true =>
      have alone := concatenates_ofOutcomes files options [path]
      simpa using alone.issues
  | false =>
      rw [share_of_not_isFile isFile]
      simp [noDirectory, Report.failed]

section Target

variable {files : FileSystem} {target root : Path}
  (absolute : Path.absolute files.workingDirectory target = root) {patterns : List String}
  {excluded : Glob.Excludes} (compiles : Glob.Excludes.compile patterns = .ok excluded)

include absolute compiles

theorem check_of_isDirectory (directory : files.isDirectory root = true) {collected : List Path}
    (collects : files.sourceFiles root excluded.excludes (fun _ => true) = .ok collected)
    (options : Options) :
    check files options patterns target =
      Report.ofOutcomes (collected.map (checkFile files options)) := by
  unfold check targetFiles
  simp [absolute, FileSystem.isFile_of_isDirectory directory, directory, compiles, collects]

theorem exists_concatenates_of_canList (normal : root.IsNormal)
    (listable : files.canList root = true) (options : Options) :
    ∃ collected, files.sourceFiles root excluded.excludes (fun _ => true) = .ok collected ∧
      Concatenates files options collected (check files options patterns target) := by
  have there : files.canList root.normalize = true := by rwa [normal.normalized]
  rcases FileSystem.exists_sourceFiles_of_canList there excluded.excludes fun _ => true with
    ⟨collected, collects⟩
  refine ⟨collected, collects, ?_⟩
  rw [check_of_isDirectory absolute compiles (FileSystem.isDirectory_of_canList listable) collects]
  exact concatenates_ofOutcomes files options collected

/-- A directory that may not be listed is not checked. -/
theorem check_of_not_canList (normal : root.IsNormal) (directory : files.isDirectory root = true)
    (unlistable : files.canList root = false) (options : Options) :
    check files options patterns target =
      Report.failed ("I/O error at " ++ root.text ++ ": Permission denied (os error 13)") := by
  rw [← normal.normalized] at directory unlistable
  have denied :=
    FileSystem.sourceFiles_of_not_canList directory unlistable excluded.excludes fun _ => true
  rw [normal.normalized] at directory denied
  rw [← Failure.message_permissionDenied]
  unfold check targetFiles
  simp [absolute, FileSystem.isFile_of_isDirectory directory, directory, compiles, denied]

omit compiles in
theorem check_of_missing (noFile : files.isFile root = false)
    (noDirectory : files.isDirectory root = false) (options : Options) :
    check files options patterns target =
      Report.failed ("I/O error at " ++ root.text ++ ": no such file or directory") := by
  rw [← Failure.message_noSuchTarget]
  unfold check targetFiles
  simp [absolute, noFile, noDirectory]

/-- A check succeeds exactly if there is a file to check or a directory to list. -/
theorem success_check (normal : root.IsNormal) (options : Options) :
    (check files options patterns target).success =
      (files.isFile root || files.canList root) := by
  cases listable : files.canList root with
  | true =>
      rcases exists_concatenates_of_canList absolute compiles normal listable options with
        ⟨collected, -, report⟩
      rw [report.success, Bool.or_true]
  | false =>
      cases directory : files.isDirectory root with
      | true =>
          rw [check_of_not_canList absolute compiles normal directory listable,
            FileSystem.isFile_of_isDirectory directory]
          rfl
      | false =>
          unfold check targetFiles
          rw [absolute, directory]
          cases files.isFile root <;> rfl

end Target

/-- A check succeeds exactly if the normalized target is a file or a directory that can be listed,
and else says what is wrong with it. The report on a directory is put together from the reports on
the files that are collected below it, and each of these contributes what checking it alone
reports. -/
theorem check_directory_concatenates_files (files : FileSystem) (options : Options)
    (patterns : List String) (excluded : Glob.Excludes)
    (compiles : Glob.Excludes.compile patterns = .ok excluded) (target : Path) :
    let root := Path.absolute files.workingDirectory target
    let report := check files options patterns target
    report.success = (files.isFile root || files.canList root) ∧
      (files.isFile root = false → files.isDirectory root = false →
        report = Report.failed ("I/O error at " ++ root.text ++ ": no such file or directory")) ∧
      (files.isDirectory root = true → files.canList root = false →
        report =
          Report.failed ("I/O error at " ++ root.text ++ ": Permission denied (os error 13)")) ∧
      (files.canList root = true →
        ∃ collected,
          files.sourceFiles root excluded.excludes (fun _ => true) = .ok collected ∧
          OrderedList.Increasing Path.compare collected ∧
          Concatenates files options collected report ∧
          ∀ path ∈ collected, ∀ others,
            (check files options others path).issues = share files options path) := by
  intro root report
  have normal : root.IsNormal :=
    Path.isNormal_normalize (Path.isAbsolute_join files.absolute target)
  refine ⟨success_check rfl compiles normal options, ?_, ?_, ?_⟩
  · intro noFile noDirectory
    exact check_of_missing rfl noFile noDirectory options
  · intro directory unlistable
    exact check_of_not_canList rfl compiles normal directory unlistable options
  · intro listable
    rcases exists_concatenates_of_canList rfl compiles normal listable options with
      ⟨collected, collects, concatenates⟩
    refine ⟨collected, collects, FileSystem.increasing_sourceFiles collects, concatenates, ?_⟩
    intro path path_mem others
    rcases FileSystem.sourceFiles_of_isAbsolute collects normal.absolute path path_mem with
      ⟨path_normal, noDirectory⟩
    exact issues_check_of_not_isDirectory path_normal noDirectory options others

/-- The body of a function that does nothing. -/
def idleBody : Node :=
  ⟨"block", true, some "body", ⟨10, 13, 1, 11, 1, 14⟩, "...", []⟩

/-- A function with a parameter that it does not read. -/
def idleFunction : Node :=
  let parameter : Node := ⟨"identifier", true, none, ⟨6, 7, 1, 7, 1, 8⟩, "x", []⟩
  let parameters : Node :=
    ⟨"parameters", true, some "parameters", ⟨5, 8, 1, 6, 1, 9⟩, "(x)", [parameter]⟩
  ⟨"function_definition", true, none, ⟨0, 13, 1, 1, 1, 14⟩, "def f(x): ...",
    [parameters, idleBody]⟩

/-- The file of that function. -/
def idleSource : SourceFile :=
  ⟨"def f(x): ...".toUTF8,
    ⟨"module", true, none, ⟨0, 13, 1, 1, 1, 14⟩, "def f(x): ...", [idleFunction]⟩⟩

/-- What is reported about the function in a file. -/
def idleIssue (file : String) : Issue :=
  ⟨.unusedParameter, file, 1, "x", none⟩

theorem issuesOf_idleSource (file : String) :
    issuesOf .python {} file idleSource.tree = [idleIssue file] := by
  have found : (policyFor .python).unusedSymbols {} idleSource.tree =
      [⟨"x", .parameter, 1, none⟩] := by decide +kernel
  rw [issuesOf_eq_of_sorted found (List.pairwise_singleton _ _)]
  rfl

/-- Two files with the same text beside one that is no source file. -/
def idleFiles : FileSystem where
  entries :=
    [(["p"], .directory), (["p", "a.py"], .file idleSource), (["p", "b.py"], .file idleSource),
      (["p", "c.md"], .file idleSource)]
  workingDirectory := ⟨"/p"⟩

theorem sourceFiles_idleFiles :
    idleFiles.sourceFiles ⟨"/p"⟩ (Glob.Excludes.excludes ⟨[]⟩) (fun _ => true) =
      .ok [⟨"/p/a.py"⟩, ⟨"/p/b.py"⟩] := by
  have walked : idleFiles.walk (Path.normalize ⟨"/p"⟩) =
      .ok [⟨"/p/a.py"⟩, ⟨"/p/b.py"⟩, ⟨"/p/c.md"⟩] := rfl
  have wanted : [⟨"/p/a.py"⟩, ⟨"/p/b.py"⟩, ⟨"/p/c.md"⟩].filter
      (FileSystem.isWanted (Path.normalize ⟨"/p"⟩) (Glob.Excludes.excludes ⟨[]⟩) fun _ => true) =
        [⟨"/p/a.py"⟩, ⟨"/p/b.py"⟩] := by decide
  unfold FileSystem.sourceFiles
  simp only [walked, wanted]
  rw [List.mergeSort_of_pairwise (by decide)]

theorem share_idleFiles {path : Path} (path_mem : path ∈ [⟨"/p/a.py"⟩, ⟨"/p/b.py"⟩]) :
    share idleFiles {} path = [idleIssue path.text] := by
  have known : Language.ofPath? path = some .python := by
    revert path
    decide
  have read : idleFiles.read path = .ok idleSource := by
    rw [List.mem_cons, List.mem_singleton] at path_mem
    rcases path_mem with rfl | rfl <;> rfl
  simp only [share, checkFile, known, read, issuesOf_idleSource]

theorem check_idleFiles_concatenates_files :
    Glob.Excludes.compile [] = .ok ⟨[]⟩ ∧
      idleFiles.canList (Path.absolute idleFiles.workingDirectory ⟨"."⟩) = true ∧
      (check idleFiles {} [] ⟨"."⟩).issues = [idleIssue "/p/a.py", idleIssue "/p/b.py"] ∧
      (check idleFiles {} [] ⟨"."⟩).filesAnalyzed = 2 ∧
      (check idleFiles {} [] ⟨"/p/b.py"⟩).issues = [idleIssue "/p/b.py"] ∧
      (idleFiles.protect ["p"]).isDirectory ⟨"/p"⟩ = true ∧
      (idleFiles.protect ["p"]).canList ⟨"/p"⟩ = false ∧
      (check (idleFiles.protect ["p"]) {} [] ⟨"."⟩).error =
        some "I/O error at /p: Permission denied (os error 13)" := by
  have listable :
      idleFiles.canList (Path.absolute idleFiles.workingDirectory ⟨"."⟩) = true := by decide
  rcases (check_directory_concatenates_files idleFiles {} [] ⟨[]⟩ rfl ⟨"."⟩).2.2.2 listable with
    ⟨collected, collects, -, concatenates, alone⟩
  have absolute : Path.absolute idleFiles.workingDirectory ⟨"."⟩ = ⟨"/p"⟩ := by decide
  rw [absolute, sourceFiles_idleFiles] at collects
  obtain rfl := Except.ok.inj collects
  refine ⟨rfl, listable, ?_, ?_, ?_, by decide, by decide, ?_⟩
  · rw [concatenates.issues]
    simp [share_idleFiles]
  · rw [concatenates.filesAnalyzed]
    decide
  · rw [alone _ (by decide), share_idleFiles (by decide)]
  · rw [(check_directory_concatenates_files (idleFiles.protect ["p"]) {} [] ⟨[]⟩ rfl ⟨"."⟩).2.2.1
      (by decide) (by decide)]
    decide

/-- A link into a directory, and another directory beside the one to which it leads. -/
def besideLink : FileSystem where
  entries :=
    [(["a"], .directory), (["a", "b"], .directory), (["a", "x"], .directory),
      (["l"], .link ⟨"a/b"⟩)]
  workingDirectory := ⟨"/"⟩

/-- A directory that is reached by going up from where a link leads is there, but its normalized
path leads nowhere. -/
theorem check_fails_besideLink :
    besideLink.canList ⟨"/l/../x"⟩ = true ∧
      check besideLink {} [] ⟨"/l/../x"⟩ =
        Report.failed "I/O error at /x: no such file or directory" := by
  decide +kernel

end Unused

end CodeFacts
