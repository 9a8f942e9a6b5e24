import CodeFacts.Proofs.Calls.Run
import Mathlib.Data.List.DropRight

/-!
# The first load of a file stays

Files may change while a session goes on. What the session knows of a path is the source that was
read when an operation first asked about the path, in whatever spelling, and could read it; it is
forgotten at a shutdown only. `firstLoad?` reads that source off the history of a run without
looking into any store, and text, declarations and calls all come from it.
-/

namespace CodeFacts.Calls

/-- What is on the disk at a path when a step asks about it, if the step does and can read it. -/
def Step.source? (step : Step) (session : Session) (path : Path) : Option SourceFile :=
  match step.operation.file? with
  | none => none
  | some file =>
    match session.resolve file with
    | .error _ => none
    | .ok resolved => if resolved.same path then (step.files.read resolved).toOption else none

namespace Session

/-- The steps of a run, each with the session in which it is taken. -/
def history (session : Session) : List Step → List (Session × Step)
  | [] => []
  | step :: rest => (session, step) :: (session.next step).history rest

theorem history_concat (session : Session) (steps : List Step) (step : Step) :
    session.history (steps ++ [step]) =
      session.history steps ++ [(session.run steps, step)] := by
  induction steps generalizing session with
  | nil => rfl
  | cons first rest ih =>
      simp only [List.cons_append, history, ih]
      rfl

end Session

/-- The part of a history after the last shutdown. -/
def sinceShutdown (history : List (Session × Step)) : List (Session × Step) :=
  history.rtakeWhile fun taken => taken.2.operation ≠ .shutdown

/-- The source of the first load of a path since the last shutdown. -/
def firstLoad? (steps : List Step) (path : Path) : Option SourceFile :=
  (sinceShutdown (Session.new.history steps)).findSome? fun taken => taken.2.source? taken.1 path

theorem firstLoad?_concat (steps : List Step) (step : Step) (path : Path) :
    firstLoad? (steps ++ [step]) path =
      if step.operation = .shutdown then none
      else (firstLoad? steps path).or (step.source? (Session.new.run steps) path) := by
  unfold firstLoad? sinceShutdown
  rw [Session.history_concat]
  split
  · rename_i last
    rw [List.rtakeWhile_concat_neg _ _ _ (by simpa using last)]
    rfl
  · rename_i going
    rw [List.rtakeWhile_concat_pos _ _ _ (by simpa using going), List.findSome?_append]
    simp

theorem firstLoad?_append {steps later : List Step}
    (going : ∀ step ∈ later, step.operation ≠ .shutdown) {path : Path} {source : SourceFile}
    (loaded : firstLoad? steps path = some source) :
    firstLoad? (steps ++ later) path = some source := by
  induction later using List.reverseRecOn with
  | nil => rwa [List.append_nil]
  | append_singleton later step ih =>
      have kept := ih fun earlier earlier_mem => going earlier (List.mem_append_left _ earlier_mem)
      rw [← List.append_assoc, firstLoad?_concat, if_neg (going step (by simp)), kept,
        Option.some_or]

namespace Session

/-- A step adds what it reads where nothing is known yet, unless it forgets everything. -/
theorem exists_filledFrom_next {session : Session} {sources : PathMap SourceFile}
    (filled : session.store.FilledFrom sources) (step : Step) :
    ∃ after, (session.next step).store.FilledFrom after ∧
      ∀ path, after.get? path =
        if step.operation = .shutdown then none
        else (sources.get? path).or (step.source? session path) := by
  cases about : step.operation.file? with
  | some file =>
      have going : step.operation ≠ .shutdown := by
        intro closes
        simp [closes, Operation.file?] at about
      rw [next_of_file? about]
      cases resolved : session.resolve file with
      | error failure =>
          refine ⟨sources, by simpa [touch, resolved] using filled, ?_⟩
          simp [Step.source?, about, resolved, going]
      | ok named =>
          rw [touch_of_resolve resolved]
          rcases exists_filledFrom_load filled step.files named with ⟨after, after_filled, found⟩
          refine ⟨after, after_filled, ?_⟩
          simp [Step.source?, about, resolved, going, found]
  | none =>
      rcases step with ⟨files, operation⟩
      cases operation with
      | openAt root =>
          refine ⟨sources, by simpa using filled, ?_⟩
          simp [Step.source?, Operation.file?]
      | shutdown => exact ⟨PathMap.empty, Store.filledFrom_empty, by simp⟩
      | incoming item =>
          refine ⟨sources, by simpa using filled, ?_⟩
          simp [Step.source?, Operation.file?]
      | _ => contradiction

/-- After a run the maps of a session are filled from the first loads of all paths. -/
theorem exists_filledFrom_run (steps : List Step) :
    ∃ sources, (new.run steps).store.FilledFrom sources ∧
      ∀ path, sources.get? path = firstLoad? steps path := by
  induction steps using List.reverseRecOn with
  | nil => exact ⟨PathMap.empty, Store.filledFrom_empty, fun _ => rfl⟩
  | append_singleton steps step ih =>
      rcases ih with ⟨sources, filled, first⟩
      rcases exists_filledFrom_next filled step with ⟨after, after_filled, found⟩
      refine ⟨after, by rwa [run_concat], fun path => ?_⟩
      rw [found, firstLoad?_concat, first]

theorem get?_run (steps : List Step) (path : Path) :
    (new.run steps).store.get? path = (firstLoad? steps path).map (LoadedFile.ofSource path) := by
  rcases exists_filledFrom_run steps with ⟨sources, filled, first⟩
  rw [filled.get?_eq, first]

/-- A file that cannot be reached or read leaves nothing behind. -/
theorem next_of_unreadable {session : Session} {step : Step} {file : Path}
    (about : step.operation.file? = some file)
    (unreadable : ∀ path, session.resolve file = .ok path →
      ∃ fault, step.files.read path = .error fault) :
    session.next step = session := by
  rw [next_of_file? about]
  cases resolved : session.resolve file with
  | error failure => simp [touch, resolved]
  | ok path =>
      rcases unreadable path resolved with ⟨fault, fails⟩
      rw [touch_of_resolve resolved, load_of_error fails]

/-- What a session knows after a run: text, declarations and calls under the same paths, which are
absolute and normalized, and the three that it has for a path are those of the first load of the
path. -/
structure HoldsFirstLoads (session : Session) (steps : List Step) : Prop where
  texts : session.store.contents.keys = session.store.calls.keys
  declared : session.store.declarations.keys = session.store.calls.keys
  normal : ∀ key ∈ session.store.calls.keys, key.isAbsolute = true ∧ key.normalize = key
  known : ∀ path, (∃ key ∈ session.store.calls.keys, key.same path = true) ↔
    (firstLoad? steps path).isSome = true
  contents : ∀ path, session.store.contents.get? path =
    (firstLoad? steps path).map fun source => Text.lossyText source.bytes
  declarations : ∀ path, session.store.declarations.get? path =
    (firstLoad? steps path).map fun source => declarationsOf source.tree
  calls : ∀ path, session.store.calls.get? path =
    (firstLoad? steps path).map fun source => callsOf source.tree

theorem holdsFirstLoads_run (steps : List Step) : (new.run steps).HoldsFirstLoads steps := by
  have wellFormed : (new.run steps).WellFormed := wellFormed_new.run steps
  rcases exists_filledFrom_run steps with ⟨sources, filled, first⟩
  refine ⟨?_, ?_, ?_, ?_, ?_, ?_, ?_⟩
  · rw [filled.contents, filled.calls, PathMap.keys_mapValues, PathMap.keys_mapValues]
  · rw [filled.declarations, filled.calls, PathMap.keys_mapValues, PathMap.keys_mapValues]
  · intro key key_mem
    have normal := wellFormed.store.isNormal_key key_mem
    exact ⟨normal.absolute, normal.normalized⟩
  · intro path
    rw [filled.calls, PathMap.keys_mapValues, PathMap.exists_key_iff, first]
  · intro path
    rw [filled.contents, PathMap.get?_mapValues, first]
  · intro path
    rw [filled.declarations, PathMap.get?_mapValues, first]
  · intro path
    rw [filled.calls, PathMap.get?_mapValues, first]

end Session

/-- Every entry of the maps of a store stands in the maps of another. -/
structure Store.IsWithin (store other : Store) : Prop where
  contents : store.contents.entries ⊆ other.contents.entries
  declarations : store.declarations.entries ⊆ other.declarations.entries
  calls : store.calls.entries ⊆ other.calls.entries

namespace Session

/-- The paths are normal, so an entry is found under its own path also in the other map. -/
theorem isWithin_run (steps : List Step) {later : List Step}
    (going : ∀ step ∈ later, step.operation ≠ .shutdown) :
    (new.run steps).store.IsWithin (new.run (steps ++ later)).store := by
  rcases exists_filledFrom_run steps with ⟨sources, filled, first⟩
  rcases exists_filledFrom_run (steps ++ later) with ⟨others, others_filled, others_first⟩
  have normal {steps : List Step} {sources : PathMap SourceFile}
      (filled : (new.run steps).store.FilledFrom sources) {path : Path} {source : SourceFile}
      (entry_mem : (path, source) ∈ sources.entries) : path.IsNormal := by
    apply (wellFormed_new.run steps).store.isNormal_key
    rw [filled.calls, PathMap.keys_mapValues]
    exact List.mem_map_of_mem entry_mem
  have within : sources.entries ⊆ others.entries := by
    rintro ⟨path, source⟩ entry_mem
    have loaded : sources.get? path = some source :=
      PathMap.get?_eq_some_iff.mpr ⟨path, entry_mem, by simp [Path.same]⟩
    have kept : others.get? path = some source := by
      rw [others_first]
      exact firstLoad?_append going ((first path).symm.trans loaded)
    rcases PathMap.get?_eq_some_iff.mp kept with ⟨key, key_mem, same⟩
    rwa [(normal others_filled key_mem).eq_of_same (normal filled entry_mem) same] at key_mem
  constructor
  · rw [filled.contents, others_filled.contents]
    exact List.map_subset _ within
  · rw [filled.declarations, others_filled.declarations]
    exact List.map_subset _ within
  · rw [filled.calls, others_filled.calls]
    exact List.map_subset _ within

/-- After any run a session holds the first load of every path since the last shutdown, an entry
stays as it is until the next shutdown, and a load that fails changes nothing. -/
theorem run_holds_first_loads (steps : List Step) :
    (new.run steps).HoldsFirstLoads steps ∧
      (∀ later, (∀ step ∈ later, step.operation ≠ .shutdown) →
        (new.run steps).store.IsWithin (new.run (steps ++ later)).store) ∧
      ∀ step file, step.operation.file? = some file →
        (∀ path, (new.run steps).resolve file = .ok path →
          ∃ fault, step.files.read path = .error fault) →
        new.run (steps ++ [step]) = new.run steps := by
  refine ⟨holdsFirstLoads_run steps, fun later going => isWithin_run steps going, ?_⟩
  intro step file about unreadable
  rw [run_concat]
  exact next_of_unreadable about unreadable

/-- A directory with one file. -/
def oneFile (source : SourceFile) : FileSystem where
  entries := [(["p"], .directory), (["p", "a.py"], .file source)]
  workingDirectory := ⟨"/p"⟩
  distinct := by simp
  names := by simp; decide

section OneFile

variable (source : SourceFile)

theorem locate_oneFile (path : Path) {location : Location}
    (plain : FileSystem.pathFault? path = none)
    (follows : (oneFile source).follow false FileSystem.linkLimit []
      (Path.join ⟨"/p"⟩ path).segmentTexts = .ok location) :
    (oneFile source).locate path = .ok location := by
  rw [FileSystem.locate, plain]
  exact follows

theorem lookup_oneFile : (oneFile source).lookup ⟨"/p"⟩ = .ok .directory := by
  have segments : (Path.join ⟨"/p"⟩ ⟨"/p"⟩).segmentTexts = ["", "p"] := by decide
  have located := locate_oneFile source ⟨"/p"⟩ (by decide) (by rw [segments]; rfl)
  rw [FileSystem.lookup, located]
  rfl

theorem read_oneFile : (oneFile source).read ⟨"/p/a.py"⟩ = .ok source := by
  have segments : (Path.join ⟨"/p"⟩ ⟨"/p/a.py"⟩).segmentTexts = ["", "p", "a.py"] := by decide
  have located := locate_oneFile source ⟨"/p/a.py"⟩ (by decide) (by rw [segments]; rfl)
  rw [FileSystem.read, located]
  rfl

/-- A session that is opened on the directory. -/
def atOneFile : Session :=
  ⟨some ⟨"/p"⟩, Store.empty⟩

/-- The session that has loaded the file as well. -/
def holdingOneFile : Session :=
  ⟨some ⟨"/p"⟩, Store.empty.add ⟨"/p/a.py"⟩ source⟩

theorem files_holdingOneFile :
    (holdingOneFile source).store.files = [LoadedFile.ofSource ⟨"/p/a.py"⟩ source] := by
  change List.filterMap (Store.empty.add ⟨"/p/a.py"⟩ source).get? [⟨"/p/a.py"⟩] = _
  simp [Store.get?_add, Path.same]

theorem resolve_atOneFile : atOneFile.resolve ⟨"a.py"⟩ = .ok ⟨"/p/a.py"⟩ := by decide

theorem load_oneFile :
    atOneFile.load (oneFile source) ⟨"/p/a.py"⟩ =
      (some (LoadedFile.ofSource ⟨"/p/a.py"⟩ source), holdingOneFile source) := by
  have added := Store.insert_of_fresh (Store.get?_empty ⟨"/p/a.py"⟩) source
  simp only [load, atOneFile, Store.get?_empty, read_oneFile, added]
  rfl

theorem openAt_oneFile : new.next ⟨oneFile source, .openAt ⟨"."⟩⟩ = atOneFile := by
  have root : Path.absolute (oneFile source).workingDirectory ⟨"."⟩ = ⟨"/p"⟩ := by
    change Path.absolute ⟨"/p"⟩ ⟨"."⟩ = _
    decide
  rw [next_openAt, openAt]
  simp only [new, root, lookup_oneFile]
  rfl

end OneFile

/-- A file is loaded, changed on the disk, and asked about again in another spelling. -/
def rereading (first second : SourceFile) : List Step :=
  [⟨oneFile first, .openAt ⟨"."⟩⟩, ⟨oneFile first, .symbols ⟨"a.py"⟩⟩,
    ⟨oneFile second, .calls ⟨"/p/./a.py"⟩⟩]

theorem firstLoad?_rereading (first second : SourceFile) :
    firstLoad? (rereading first second) ⟨"/p//a.py"⟩ = some first := by
  have same : Path.same ⟨"/p/a.py"⟩ ⟨"/p//a.py"⟩ = true := by decide
  have read : Step.source? ⟨oneFile first, .symbols ⟨"a.py"⟩⟩ atOneFile ⟨"/p//a.py"⟩ =
      some first := by
    simp [Step.source?, Operation.file?, resolve_atOneFile, same, read_oneFile, Except.toOption]
  unfold firstLoad? sinceShutdown
  rw [List.rtakeWhile_eq_self_iff.mpr (by simp [rereading, history])]
  rw [rereading, history, history, openAt_oneFile]
  rw [List.findSome?_cons_of_isNone (by simp [Step.source?, Operation.file?])]
  rw [List.findSome?_cons_of_isSome (by simp [read]), read]

theorem rereading_holds_first_load :
    let first : SourceFile := ⟨⟨#[97]⟩, Node.empty⟩
    let second : SourceFile := ⟨⟨#[98]⟩, Node.empty⟩
    let before := (rereading first second).take 2
    let later := (rereading first second).drop 2
    (∀ step ∈ later, step.operation ≠ .shutdown) ∧
      (new.run before).store.IsWithin (new.run (before ++ later)).store ∧
      (new.run (before ++ later)).store.contents.get? ⟨"/p//a.py"⟩ =
        some (Text.lossyText first.bytes) := by
  intro first second before later
  have going : ∀ step ∈ later, step.operation ≠ .shutdown := by
    simp [later, rereading]
  refine ⟨going, (run_holds_first_loads before).2.1 later going, ?_⟩
  have whole : before ++ later = rereading first second := List.take_append_drop 2 _
  rw [whole, (run_holds_first_loads (rereading first second)).1.contents, firstLoad?_rereading]
  rfl

end Session

end CodeFacts.Calls
