import CodeFacts.Calls.Lookup
import CodeFacts.Proofs.Calls.LoadOrder
import CodeFacts.Proofs.FileSystem.Reached
import CodeFacts.Proofs.Imports.Build
import CodeFacts.Proofs.Tree.Preorder

/-!
# References after preloading

A session only sees the files that it has read, so references are complete for a directory once
all source files below it are read. The walk gives their paths in normal form. An absolute path is
resolved to its normal form, and files are kept under it, so every collected file is read once and
found again under the path by which the walk found it. As long as the files stay as they are, the
session then holds what the disk holds at the collected paths and at those that were asked about
before, and the references of a declaration are the calls that end in its name, file by file.
-/

namespace CodeFacts.Calls

/-- A dotted name ends in a name: its part after the last dot, or all of it if there is no dot. -/
def EndsIn (dotted name : String) : Prop :=
  '.' ∉ name.toList ∧ (dotted = name ∨ ∃ owner, dotted = owner ++ "." ++ name)

theorem takeWhile_dot_eq_iff (chars plain : List Char) :
    chars.takeWhile (· != '.') = plain ↔
      '.' ∉ plain ∧ (chars = plain ∨ ∃ rest, chars = plain ++ '.' :: rest) := by
  induction chars generalizing plain with
  | nil => cases plain <;> simp
  | cons char chars ih =>
      cases plain with
      | nil => by_cases dot : char = '.' <;> simp [dot]
      | cons first others =>
          by_cases dot : char = '.'
          · have differ : '.' ∉ first :: others → char ≠ first := by
              rintro plain rfl
              exact plain (dot ▸ List.mem_cons_self)
            simp only [dot, List.takeWhile_cons]
            grind
          · rw [List.takeWhile_cons_of_pos (by simpa using dot)]
            simp only [List.cons.injEq, ih, List.mem_cons, not_or, List.cons_append]
            grind

theorem lastSegment_eq_iff (dotted name : String) :
    CallSite.lastSegment dotted = name ↔ EndsIn dotted name := by
  have reversed : CallSite.lastSegment dotted = name ↔
      dotted.toList.reverse.takeWhile (· != '.') = name.toList.reverse := by
    rw [CallSite.lastSegment, ← String.toList_inj, String.toList_ofList, List.reverse_eq_iff]
  rw [reversed, takeWhile_dot_eq_iff, EndsIn, List.mem_reverse, List.reverse_inj,
    String.toList_inj]
  refine and_congr_right fun _ => or_congr_right ?_
  constructor
  · rintro ⟨rest, split⟩
    refine ⟨String.ofList rest.reverse, ?_⟩
    rw [List.reverse_eq_iff] at split
    rw [← String.toList_inj, split]
    simp
  · rintro ⟨owner, rfl⟩
    exact ⟨owner.toList.reverse, by simp⟩

instance (dotted name : String) : Decidable (EndsIn dotted name) :=
  decidable_of_iff _ (lastSegment_eq_iff dotted name)

/-- The recorded calls of a tree, each before those that are written inside or after it. -/
def callsInOrder (tree : Node) : List CallSite :=
  (((Cursor.ofRoot tree).preorder fun _ => true).filter fun cursor =>
    cursor.kind = "call").filterMap callSite?

theorem callsOf_eq_callsInOrder (tree : Node) : callsOf tree = callsInOrder tree := by
  simp [callsOf, callsInOrder, Cursor.descendantsOfKind, Cursor.descendantsOfKinds,
    Cursor.descendants, Cursor.walk_eq_preorder]

/-- The places of the calls of a name in the file that the disk holds at a path. -/
def callPlaces (files : FileSystem) (name : String) (path : Path) : List SourceLocation :=
  match files.read path with
  | .error _ => []
  | .ok source =>
    ((callsInOrder source.tree).filter fun call => EndsIn call.callee name).map fun call =>
      ⟨path, call.line, call.column, none⟩

theorem targets_eq_endsIn (call : CallSite) (name : String) :
    call.targets name = decide (EndsIn call.callee name) := by
  rw [Bool.eq_iff_iff, CallSite.targets, beq_iff_eq, decide_eq_true_iff, ← lastSegment_eq_iff]
  rfl

namespace Store

variable {store : Store} {files : FileSystem} {paths : List Path}

/-- References are read off the disk, file by file. -/
theorem Holds.references_eq (holds : store.Holds files paths) (name : String) :
    store.references name =
      (store.files.map LoadedFile.path).flatMap (callPlaces files name) := by
  rw [references, callsTargeting, List.map_flatMap, List.flatMap_map]
  apply List.flatMap_congr
  intro file file_mem
  rcases (holds.mem_iff file).mp file_mem with ⟨path, -, source, read, rfl⟩
  simp [callPlaces, LoadedFile.ofSource, read, callsOf_eq_callsInOrder, targets_eq_endsIn]

theorem Holds.mem_map_path_iff (holds : store.Holds files paths) (path : Path) :
    path ∈ store.files.map LoadedFile.path ↔
      path ∈ paths ∧ ∃ source, files.read path = .ok source := by
  simp only [List.mem_map, holds.mem_iff]
  constructor
  · rintro ⟨_, ⟨known, known_mem, source, read, rfl⟩, rfl⟩
    exact ⟨known_mem, source, read⟩
  · rintro ⟨path_mem, source, read⟩
    exact ⟨_, ⟨path, path_mem, source, read, rfl⟩, rfl⟩

theorem increasing_map_path (store : Store) :
    OrderedList.Increasing Path.compare (store.files.map LoadedFile.path) :=
  List.pairwise_map.mpr store.increasing_files

theorem Holds.mem_contents_iff (holds : store.Holds files paths) (path : Path) (text : String) :
    (path, text) ∈ store.contents.entries ↔
      path ∈ paths ∧ ∃ source, files.read path = .ok source ∧
        text = Text.lossyText source.bytes := by
  rcases holds with ⟨sources, filled, held⟩
  rw [filled.contents, PathMap.entries_mapValues, List.mem_map]
  constructor
  · rintro ⟨⟨key, source⟩, entry_mem, same⟩
    obtain ⟨rfl, rfl⟩ := Prod.mk.inj same
    rcases (held key source).mp entry_mem with ⟨path_mem, read⟩
    exact ⟨path_mem, source, read, rfl⟩
  · rintro ⟨path_mem, source, read, rfl⟩
    exact ⟨(path, source), (held path source).mpr ⟨path_mem, read⟩, rfl⟩

end Store

namespace Session

/-- A session has read nothing but what the disk still holds, and its root is a directory. -/
structure Mirrors (session : Session) (files : FileSystem) (paths : List Path) : Prop where
  root : ∀ root, session.root = some root → root.isAbsolute = true ∧ files.isDirectory root = true
  normal : ∀ path ∈ paths, path.IsNormal
  store : session.store.Holds files paths

variable {session : Session} {files : FileSystem} {paths : List Path} {path : Path}

theorem Mirrors.load (mirrors : session.Mirrors files paths) (normal : path.IsNormal) :
    (session.load files path).2.Mirrors files (paths ++ [path]) where
  root := by simpa using mirrors.root
  normal := List.forall_mem_append.mpr ⟨mirrors.normal, List.forall_mem_singleton.mpr normal⟩
  store := holds_load mirrors.store (fun known known_mem => (mirrors.normal known known_mem).isTidy)
    normal.isTidy

/-- What is loaded is what the disk holds. -/
theorem Mirrors.load_eq (mirrors : session.Mirrors files paths) (normal : path.IsNormal)
    {source : SourceFile} (read : files.read path = .ok source) :
    (session.load files path).1 = some (LoadedFile.ofSource path source) := by
  rcases session.load_cases files path with ⟨loaded, known, load⟩ | ⟨fresh, ⟨fault, failed, load⟩ |
    ⟨other, again, load⟩⟩
  · rcases Store.exists_of_get? known with ⟨file, file_mem, same, rfl⟩
    rcases (mirrors.store.mem_iff file).mp file_mem with ⟨found, found_mem, other, again, rfl⟩
    obtain rfl : found = path := (mirrors.normal found found_mem).eq_of_same normal same
    rw [read] at again
    obtain rfl := Except.ok.inj again
    rw [load]
    rfl
  · rw [read] at failed
    contradiction
  · rw [read] at again
    obtain rfl := Except.ok.inj again
    rw [load]

theorem resolve_of_isNormal {root : Path} (opened : session.root = some root)
    (normal : path.IsNormal) : session.resolve path = .ok path := by
  rw [resolve, opened]
  simp only [Path.join_of_isAbsolute normal.absolute, normal.normalized]

theorem Mirrors.isNormal_of_resolve (mirrors : session.Mirrors files paths) {file : Path}
    (resolved : session.resolve file = .ok path) : path.IsNormal := by
  rcases exists_root_of_resolve resolved with ⟨root, opened, rfl⟩
  exact Path.isNormal_normalize (Path.isAbsolute_join (mirrors.root root opened).1 file)

theorem Mirrors.openAt (mirrors : session.Mirrors files paths) (root : Path) :
    (session.openAt files root).2.Mirrors files paths := by
  cases opened : session.root with
  | some other => simpa [Session.openAt, opened] using mirrors
  | none =>
      cases directory : files.isDirectory (Path.absolute files.workingDirectory root) with
      | true =>
          rw [openAt_of_isDirectory opened directory]
          refine ⟨?_, mirrors.normal, mirrors.store⟩
          rintro _ ⟨⟩
          exact ⟨Path.isAbsolute_normalize (Path.isAbsolute_join files.absolute root), directory⟩
      | false =>
          rcases openAt_of_not_isDirectory opened directory with ⟨fault, fails⟩
          rw [fails]
          exact mirrors

/-- After a run on unchanging files a session mirrors the disk. -/
theorem exists_mirrors_run (files : FileSystem) (operations : List Operation) :
    ∃ paths, (new.run (unchanging files operations)).Mirrors files paths := by
  apply run_induction fun session => ∃ paths, session.Mirrors files paths
  · exact ⟨[], by simp [new], by simp, Store.holds_empty files⟩
  · rintro step step_mem session ⟨paths, mirrors⟩
    rcases List.mem_map.mp step_mem with ⟨operation, -, rfl⟩
    apply next_induction (fun session => ∃ paths, session.Mirrors files paths) _ ⟨paths, mirrors⟩
    · intro root
      exact ⟨paths, mirrors.openAt root⟩
    · intro _
      exact ⟨[], mirrors.root, by simp, Store.holds_empty files⟩
    · intro file _
      cases resolved : session.resolve file with
      | error failure => exact ⟨paths, by simpa [touch, resolved] using mirrors⟩
      | ok path =>
          rw [touch_of_resolve resolved]
          exact ⟨paths ++ [path], mirrors.load (mirrors.isNormal_of_resolve resolved)⟩

/-- Reading files one by one adds what the disk holds at their paths. -/
theorem Mirrors.loadAll (mirrors : session.Mirrors files paths) {root : Path}
    (opened : session.root = some root) {list : List Path}
    (normal : ∀ path ∈ list, path.IsNormal) :
    ∃ after, session.loadAll files list = (.ok list.length, after) ∧ after.root = some root ∧
      after.Mirrors files (paths ++ list) := by
  induction list generalizing session paths with
  | nil => exact ⟨session, rfl, opened, by simpa using mirrors⟩
  | cons path rest ih =>
      rw [List.forall_mem_cons] at normal
      rcases exists_withFile_of_open opened files path fun _ loaded =>
        loaded.declarations.map (FileSymbol.ofDeclaration loaded.path) with ⟨found, answered⟩
      have symbols : session.symbols files path = (.ok found, (session.load files path).2) := by
        apply Prod.ext
        · exact answered
        · rw [Session.symbols, withFile_snd, touch_of_resolve (resolve_of_isNormal opened normal.1)]
      rcases ih (mirrors.load normal.1) (by simpa using opened) normal.2 with
        ⟨after, loads, root_eq, after_mirrors⟩
      refine ⟨after, ?_, root_eq, by simpa using after_mirrors⟩
      rw [Session.loadAll, symbols]
      simp [loads]

/-- A session is determined by its root and what it has read. -/
theorem Mirrors.eq_of_mem_iff {other : Session} {others : List Path}
    (mirrors : session.Mirrors files paths) (other_mirrors : other.Mirrors files others)
    (root : session.root = other.root) (same : ∀ path, path ∈ paths ↔ path ∈ others) :
    session = other := by
  have store := mirrors.store.eq_of_mem_iff other_mirrors.store same
  cases session
  cases other
  simp_all

/-- Preloading reads the source files below the root. -/
theorem Mirrors.preload (mirrors : session.Mirrors files paths) {root : Path}
    (absolute : root.isAbsolute = true) (opened : session.root = some root.normalize)
    (listable : files.canList root.normalize = true)
    {patterns : List String} {excluded : Glob.Excludes}
    (compiles : Glob.Excludes.compile patterns = .ok excluded) :
    ∃ collected after,
      files.sourceFiles root excluded.excludes (fun language => language == .python) =
        .ok collected ∧
      session.preload files root patterns = (.ok collected.length, after) ∧
      after.root = some root.normalize ∧ after.Mirrors files (paths ++ collected) := by
  rcases FileSystem.exists_sourceFiles_of_canList listable excluded.excludes
    fun language => language == .python with ⟨collected, collects⟩
  have normal : ∀ path ∈ collected, path.IsNormal := fun path path_mem =>
    (FileSystem.sourceFiles_of_isAbsolute collects absolute path path_mem).1
  have supported : collected.filter supports = collected := by
    rw [List.filter_eq_self]
    intro path path_mem
    rcases ((FileSystem.sourceFiles_spec collects).2 path path_mem).2.language with
      ⟨language, known, python⟩
    simpa [supports, known] using python
  rcases mirrors.loadAll opened normal with ⟨after, loads, root_eq, after_mirrors⟩
  refine ⟨collected, after, collects, ?_, root_eq, after_mirrors⟩
  rw [Session.preload, compiles]
  simp only [collects, supported, loads]

/-- The references at a position are the calls of the declaration there in all files that are known
then, in the order of their paths: the file in question and those that were known before. -/
def FindsCalls (files : FileSystem) (session : Session) : Prop :=
  ∀ query path source declaration,
    session.resolve query.file = .ok path → files.read path = .ok source →
    declarationAt? (declarationsOf source.tree) query.position.line = some declaration →
    ∃ later,
      session.references files query =
        (.ok (later.loadedPaths.flatMap (callPlaces files declaration.name)), later) ∧
      OrderedList.Increasing Path.compare later.loadedPaths ∧
      ∀ other, other ∈ later.loadedPaths ↔ other ∈ session.loadedPaths ∨ other = path

theorem Mirrors.findsCalls (mirrors : session.Mirrors files paths) :
    FindsCalls files session := by
  intro query path source declaration resolved read here
  have normal := mirrors.isNormal_of_resolve resolved
  have later_mirrors := mirrors.load normal
  have load : session.load files path =
      (some (LoadedFile.ofSource path source), (session.load files path).2) :=
    Prod.ext (mirrors.load_eq normal read) rfl
  refine ⟨(session.load files path).2, ?_, Store.increasing_map_path _, ?_⟩
  · rw [references_of_load resolved load here, later_mirrors.store.references_eq]
    rfl
  · intro other
    unfold loadedPaths
    rw [later_mirrors.store.mem_map_path_iff, mirrors.store.mem_map_path_iff, List.mem_append,
      List.mem_singleton, or_and_right]
    refine or_congr_right ⟨And.left, ?_⟩
    rintro rfl
    exact ⟨rfl, source, read⟩

/-- Preloading the root of a session reads exactly the source files below it, beside what was read
before, and does so once. From then on references are complete for these files. If the root cannot
be listed, preloading fails and reads nothing. -/
theorem preload_completes_references (files : FileSystem) (root : Path)
    (absolute : root.isAbsolute = true) (patterns : List String) (excluded : Glob.Excludes)
    (compiles : Glob.Excludes.compile patterns = .ok excluded) (operations : List Operation)
    (opened : (new.run (unchanging files operations)).root = some root.normalize) :
    let session := new.run (unchanging files operations)
    (files.canList root.normalize = true → ∃ collected after,
      files.sourceFiles root excluded.excludes (fun language => language == .python) =
        .ok collected ∧
      session.preload files root patterns = (.ok collected.length, after) ∧
      after.root = session.root ∧
      (∀ file, file ∈ after.store.files ↔ file ∈ session.store.files ∨
        ∃ path ∈ collected, ∃ source, files.read path = .ok source ∧
          file = LoadedFile.ofSource path source) ∧
      (∀ path text, (path, text) ∈ after.store.contents.entries ↔
        (path, text) ∈ session.store.contents.entries ∨
          path ∈ collected ∧ ∃ source, files.read path = .ok source ∧
            text = Text.lossyText source.bytes) ∧
      after.preload files root patterns = (.ok collected.length, after) ∧
      FindsCalls files after) ∧
    (files.canList root.normalize = false →
      session.preload files root patterns =
        (.error (.io root.normalize .permissionDenied), session)) := by
  intro session
  rcases exists_mirrors_run files operations with ⟨paths, mirrors⟩
  constructor
  · intro listable
    rcases mirrors.preload absolute opened listable compiles with
      ⟨collected, after, collects, loads, after_root, after_mirrors⟩
    rcases after_mirrors.preload absolute after_root listable compiles with
      ⟨collected_again, again, collects_again, loads_again, again_root, again_mirrors⟩
    obtain rfl : collected = collected_again := by
      rw [collects] at collects_again
      exact Except.ok.inj collects_again
    have unchanged : again = after :=
      again_mirrors.eq_of_mem_iff after_mirrors (again_root.trans after_root.symm) (by simp)
    refine ⟨collected, after, collects, loads, after_root.trans opened.symm, ?_, ?_, ?_,
      after_mirrors.findsCalls⟩
    · intro file
      rw [after_mirrors.store.mem_iff, mirrors.store.mem_iff]
      simp only [List.mem_append, or_and_right, exists_or]
    · intro path text
      rw [after_mirrors.store.mem_contents_iff, mirrors.store.mem_contents_iff, List.mem_append,
        or_and_right]
    · rw [loads_again, unchanged]
  · intro unlistable
    have directory := (mirrors.root _ opened).2
    rw [Session.preload, compiles]
    simp only [FileSystem.sourceFiles_of_not_canList directory unlistable]

section Twins

/-- Two files with the same text, listed in any order, are collected in the order of their paths. -/
theorem eq_of_sourceFiles_twinFiles {collected : List Path}
    (collects : twinFiles.sourceFiles ⟨"/p"⟩ (Glob.Excludes.excludes ⟨[]⟩) (fun language => language == .python) =
      .ok collected) : collected = [⟨"/p/a.py"⟩, ⟨"/p/b.py"⟩] := by
  have increasing := FileSystem.increasing_sourceFiles collects
  have walked : twinFiles.walk (Path.normalize ⟨"/p"⟩) = .ok [⟨"/p/b.py"⟩, ⟨"/p/a.py"⟩] := rfl
  have wanted : [⟨"/p/b.py"⟩, ⟨"/p/a.py"⟩].filter
      (FileSystem.isWanted (Path.normalize ⟨"/p"⟩) (Glob.Excludes.excludes ⟨[]⟩) fun language => language == .python) =
        [⟨"/p/b.py"⟩, ⟨"/p/a.py"⟩] := by decide
  rcases FileSystem.exists_walk_of_sourceFiles collects with ⟨found, found_eq, rfl⟩
  rw [walked] at found_eq
  obtain rfl := Except.ok.inj found_eq
  apply increasing.eq_of_mem_iff (by decide)
  intro path
  rw [wanted, List.mem_mergeSort]
  simp [or_comm]

theorem read_twinFiles {path : Path} (path_mem : path ∈ [⟨"/p/a.py"⟩, ⟨"/p/b.py"⟩]) :
    twinFiles.read path = .ok recursiveSource := by
  rw [List.mem_cons, List.mem_singleton] at path_mem
  rcases path_mem with rfl | rfl <;> rfl

theorem callPlaces_twinFiles {path : Path} (path_mem : path ∈ [⟨"/p/a.py"⟩, ⟨"/p/b.py"⟩]) :
    callPlaces twinFiles "f" path = [⟨path, 2, 5, none⟩, ⟨path, 3, 1, none⟩] := by
  have ends : EndsIn "f" "f" := by decide
  simp [callPlaces, read_twinFiles path_mem, ← callsOf_eq_callsInOrder, callsOf_recursiveSource,
    ends]

theorem preload_completes_references_of_twins :
    let session := new.run (unchanging twinFiles [.openAt ⟨"."⟩])
    let query : Query := ⟨⟨"a.py"⟩, ⟨1, 1⟩⟩
    twinFiles.canList ⟨"/p"⟩ = true ∧ session.root = some ⟨"/p"⟩ ∧ session.loadedPaths = [] ∧
      ∃ after later,
        session.preload twinFiles ⟨"/p"⟩ [] = (.ok 2, after) ∧
        after.references twinFiles query =
          (.ok [⟨⟨"/p/a.py"⟩, 2, 5, none⟩, ⟨⟨"/p/a.py"⟩, 3, 1, none⟩,
            ⟨⟨"/p/b.py"⟩, 2, 5, none⟩, ⟨⟨"/p/b.py"⟩, 3, 1, none⟩], later) := by
  intro session query
  have listable : twinFiles.canList ⟨"/p"⟩ = true := by decide
  have opened : session.root = some ⟨"/p"⟩ := by decide
  rcases (preload_completes_references twinFiles ⟨"/p"⟩ rfl [] ⟨[]⟩ rfl
    [.openAt ⟨"."⟩] (by decide)).1 (by decide) with
    ⟨collected, after, collects, loads, root, held, -, -, finds⟩
  obtain rfl := eq_of_sourceFiles_twinFiles collects
  have after_paths : ∀ path, path ∈ after.loadedPaths ↔ path ∈ [⟨"/p/a.py"⟩, ⟨"/p/b.py"⟩] := by
    intro path
    unfold loadedPaths
    rw [List.mem_map]
    constructor
    · rintro ⟨file, file_mem, rfl⟩
      rcases (held file).mp file_mem with old | ⟨found, found_mem, source, -, rfl⟩
      · contradiction
      · exact found_mem
    · intro path_mem
      exact ⟨_, (held _).mpr (Or.inr ⟨path, path_mem, _, read_twinFiles path_mem, rfl⟩), rfl⟩
  have resolved : after.resolve query.file = .ok ⟨"/p/a.py"⟩ := by
    rw [resolve, root]
    decide
  have here : declarationAt? (declarationsOf recursiveSource.tree) query.position.line =
      some recursiveFunction := by
    rw [declarationsOf_recursiveSource]
    rfl
  rcases finds query _ _ _ resolved (read_twinFiles (by decide)) here with
    ⟨later, answered, increasing, later_paths⟩
  have paths : later.loadedPaths = [⟨"/p/a.py"⟩, ⟨"/p/b.py"⟩] := by
    apply increasing.eq_of_mem_iff (by decide)
    intro path
    rw [later_paths, after_paths]
    exact or_iff_left_of_imp fun same => same ▸ List.mem_cons_self
  refine ⟨listable, opened, rfl, after, later, loads, ?_⟩
  rw [answered, paths]
  simp [recursiveFunction, callPlaces_twinFiles]

end Twins

end Session

end CodeFacts.Calls
