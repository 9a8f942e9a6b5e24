import CodeFacts.Proofs.Calls.Lifecycle
import CodeFacts.Proofs.Calls.References

/-!
# The order of loading

A session that starts with an empty store and is asked about files of an unchanging disk ends up
with a store that holds what the disk holds at the paths that were asked about, and nothing else.
Maps are in order and the paths are normalized, so the store is determined by the set of these
paths: neither their order nor their spelling nor how often they were asked about can be seen later.
-/

namespace CodeFacts.Calls

/-- Operations as the steps of a run on files that stay as they are. -/
def unchanging (files : FileSystem) (operations : List Operation) : List Step :=
  operations.map (Step.mk files)

theorem unchanging_concat (files : FileSystem) (operations : List Operation)
    (operation : Operation) :
    unchanging files (operations ++ [operation]) =
      unchanging files operations ++ [⟨files, operation⟩] := by
  simp [unchanging]

/-- The normalized path of the file that an operation reads. -/
def Session.touches? (session : Session) (operation : Operation) : Option Path :=
  operation.file?.bind fun file => (session.resolve file).toOption

/-- The normalized paths of the files that operations read. -/
def Session.touched (session : Session) (operations : List Operation) : List Path :=
  operations.filterMap session.touches?

namespace Store

/-- A store is filled with what the disk holds at given paths. -/
def Holds (store : Store) (files : FileSystem) (paths : List Path) : Prop :=
  ∃ sources : PathMap SourceFile, store.FilledFrom sources ∧
    ∀ path source, (path, source) ∈ sources.entries ↔
      path ∈ paths ∧ files.read path = .ok source

theorem holds_empty (files : FileSystem) : empty.Holds files [] :=
  ⟨PathMap.empty, filledFrom_empty, by simp [PathMap.empty]⟩

theorem Holds.mem_iff {store : Store} {files : FileSystem} {paths : List Path}
    (holds : store.Holds files paths) (file : LoadedFile) :
    file ∈ store.files ↔
      ∃ path ∈ paths, ∃ source, files.read path = .ok source ∧
        file = LoadedFile.ofSource path source := by
  rcases holds with ⟨sources, filled, held⟩
  simp only [filled.mem_files_iff, held, and_assoc, exists_and_left]

theorem Holds.eq_of_mem_iff {first second : Store} {files : FileSystem}
    {firstPaths secondPaths : List Path} (first_holds : first.Holds files firstPaths)
    (second_holds : second.Holds files secondPaths)
    (same : ∀ path, path ∈ firstPaths ↔ path ∈ secondPaths) : first = second := by
  rcases first_holds with ⟨sources, filled, held⟩
  rcases second_holds with ⟨others, others_filled, others_held⟩
  obtain rfl : sources = others := by
    apply PathMap.ext_entries
    apply sources.ordered.eq_of_mem_iff others.ordered
    rintro ⟨path, source⟩
    rw [held, others_held, same]
  exact filled.eq_of_filledFrom others_filled

end Store

namespace Session

variable {files : FileSystem} {session : Session} {paths : List Path} {path : Path}

/-- Loading one more path adds what the disk holds there. A path that is known already is among
the given ones, for both are written tidily. -/
theorem holds_load (holds : session.store.Holds files paths)
    (tidy : ∀ known ∈ paths, known.IsTidy) (path_tidy : path.IsTidy) :
    (session.load files path).2.store.Holds files (paths ++ [path]) := by
  rcases holds with ⟨sources, filled, held⟩
  have added : ∀ other source, other ∈ paths ++ [path] ∧ files.read other = .ok source ↔
      (other, source) ∈ sources.entries ∨ other = path ∧ files.read path = .ok source := by
    intro other source
    rw [held, List.mem_append, List.mem_singleton, or_and_right]
    refine or_congr_right (and_congr_right ?_)
    rintro rfl
    rfl
  rcases session.load_cases files path with ⟨loaded, known, load⟩ | ⟨fresh, ⟨fault, read, load⟩ |
    ⟨source, read, load⟩⟩
  · rw [load]
    refine ⟨sources, filled, fun other source => ?_⟩
    rw [added]
    refine ⟨Or.inl, fun known_or_read => known_or_read.elim id ?_⟩
    rintro ⟨rfl, read⟩
    rw [filled.get?_eq] at known
    rcases Option.map_eq_some_iff.mp known with ⟨stored, found, -⟩
    rcases PathMap.get?_eq_some_iff.mp found with ⟨key, entry_mem, same⟩
    rcases (held key stored).mp entry_mem with ⟨key_mem, key_read⟩
    obtain rfl : key = other := (tidy key key_mem).eq_of_components path_tidy (eq_of_beq same)
    rw [key_read] at read
    obtain rfl := Except.ok.inj read
    exact entry_mem
  · rw [load]
    refine ⟨sources, filled, fun other source => ?_⟩
    rw [added, read]
    simp
  · rw [load]
    have unknown : sources.get? path = none := by simpa [filled.get?_eq] using fresh
    refine ⟨sources.insert path source, filled.add fresh source, fun other stored => ?_⟩
    rw [added, read, PathMap.mem_insert_iff unknown]
    simp [or_comm, eq_comm]

theorem isTidy_of_mem_touched {operations : List Operation}
    (path_mem : path ∈ session.touched operations) : path.IsTidy := by
  rcases List.mem_filterMap.mp path_mem with ⟨operation, -, touches⟩
  rcases Option.bind_eq_some_iff.mp touches with ⟨file, -, resolves⟩
  cases resolved : session.resolve file with
  | error failure => simp [resolved, Except.toOption] at resolves
  | ok normalized =>
      rcases exists_root_of_resolve resolved with ⟨root, -, rfl⟩
      simp only [resolved, Except.toOption, Option.some.injEq] at resolves
      exact resolves ▸ Path.isTidy_normalize _

theorem next_of_touches? {operation : Operation} (asks : operation.asks = true)
    (files : FileSystem) (session : Session) :
    session.next ⟨files, operation⟩ =
      match session.touches? operation with
      | none => session
      | some path => (session.load files path).2 := by
  cases about : operation.file? with
  | none =>
      cases operation with
      | incoming item => rfl
      | _ => contradiction
  | some file =>
      rw [next_of_file? about]
      cases resolved : session.resolve file with
      | error failure => simp [touch, touches?, about, resolved, Except.toOption]
      | ok path => simp [touch, touches?, about, resolved, Except.toOption]

/-- After a run on unchanging files the store holds what the run has touched. -/
theorem holds_run (files : FileSystem) (fresh : session.store = Store.empty)
    {operations : List Operation}
    (asks : ∀ operation ∈ operations, operation.asks = true) :
    (session.run (unchanging files operations)).root = session.root ∧
      (session.run (unchanging files operations)).store.Holds files
        (session.touched operations) := by
  induction operations using List.reverseRecOn with
  | nil => exact ⟨rfl, by simpa [unchanging, touched, fresh] using Store.holds_empty files⟩
  | append_singleton operations operation ih =>
      rw [List.forall_mem_append, List.forall_mem_singleton] at asks
      rcases ih asks.1 with ⟨root, holds⟩
      have resolves : (session.run (unchanging files operations)).touches? operation =
          session.touches? operation := by
        simp [touches?, resolve, root]
      rw [unchanging_concat, run_concat, next_of_touches? asks.2, resolves]
      cases touches : session.touches? operation with
      | none => exact ⟨root, by simpa [touched, touches] using holds⟩
      | some path =>
          have split : session.touched (operations ++ [operation]) =
              session.touched operations ++ [path] := by
            simp [touched, touches]
          have path_tidy : path.IsTidy :=
            isTidy_of_mem_touched (split ▸ List.mem_append_right _ List.mem_cons_self)
          rw [split]
          refine ⟨by simpa using root, ?_⟩
          exact holds_load holds (fun _ known_mem => isTidy_of_mem_touched known_mem) path_tidy

/-- The same paths are touched if they mean the same. -/
theorem mem_touched_iff {first second : List Operation}
    (same : ∀ location, location ∈ (session.touched first).map Path.components ↔
      location ∈ (session.touched second).map Path.components) (path : Path) :
    path ∈ session.touched first ↔ path ∈ session.touched second := by
  have transfers {first second : List Operation}
      (within : ∀ location, location ∈ (session.touched first).map Path.components →
        location ∈ (session.touched second).map Path.components)
      (path_mem : path ∈ session.touched first) : path ∈ session.touched second := by
    rcases List.mem_map.mp (within _ (List.mem_map_of_mem path_mem)) with ⟨other, other_mem, means⟩
    have written := (isTidy_of_mem_touched other_mem).eq_of_components
      (isTidy_of_mem_touched path_mem) means
    exact written ▸ other_mem
  exact ⟨transfers fun location => (same location).mp,
    transfers fun location => (same location).mpr⟩

/-- Whatever is asked of a session that started with an empty store, the answers do not tell in
which order, in which spelling and how often files were loaded before, but only which ones. -/
theorem answers_after_loads_in_any_order (files : FileSystem) (session : Session)
    (fresh : session.store = Store.empty) (first second : List Operation)
    (first_asks : ∀ operation ∈ first, operation.asks = true)
    (second_asks : ∀ operation ∈ second, operation.asks = true)
    (same : ∀ location, location ∈ (session.touched first).map Path.components ↔
      location ∈ (session.touched second).map Path.components) (later : List Step) :
    (session.run (unchanging files first)).answers later =
      (session.run (unchanging files second)).answers later := by
  rcases holds_run files fresh first_asks with ⟨first_root, first_holds⟩
  rcases holds_run files fresh second_asks with ⟨second_root, second_holds⟩
  have store_eq := first_holds.eq_of_mem_iff second_holds (mem_touched_iff same)
  have session_eq : session.run (unchanging files first) =
      session.run (unchanging files second) := by
    generalize session.run (unchanging files first) = one at *
    generalize session.run (unchanging files second) = other at *
    cases one
    cases other
    simp_all
  rw [session_eq]

/-- Two files with the same text, each of which calls a function that the other one has too. -/
def twinFiles : FileSystem where
  entries :=
    [(["p"], .directory), (["p", "b.py"], .file recursiveSource),
      (["p", "a.py"], .file recursiveSource)]
  workingDirectory := ⟨"/p"⟩

theorem answers_after_loading_twins_in_any_order :
    let first : List Operation := [.symbols ⟨"a.py"⟩, .calls ⟨"b.py"⟩]
    let second : List Operation :=
      [.calls ⟨"./x/../b.py"⟩, .declarations ⟨"/p//a.py"⟩, .symbols ⟨"b.py"⟩]
    let later : List Step :=
      [⟨twinFiles, .references ⟨⟨"b.py"⟩, ⟨1, 1⟩⟩⟩, ⟨twinFiles, .definition ⟨⟨"b.py"⟩, ⟨2, 5⟩⟩⟩]
    atOneFile.store = Store.empty ∧
      atOneFile.touched first = [⟨"/p/a.py"⟩, ⟨"/p/b.py"⟩] ∧
      atOneFile.touched second = [⟨"/p/b.py"⟩, ⟨"/p/a.py"⟩, ⟨"/p/b.py"⟩] ∧
      (atOneFile.run (unchanging twinFiles first)).answers later =
        (atOneFile.run (unchanging twinFiles second)).answers later := by
  intro first second later
  have first_touched : atOneFile.touched first = [⟨"/p/a.py"⟩, ⟨"/p/b.py"⟩] := by decide
  have second_touched :
      atOneFile.touched second = [⟨"/p/b.py"⟩, ⟨"/p/a.py"⟩, ⟨"/p/b.py"⟩] := by decide
  refine ⟨rfl, first_touched, second_touched, ?_⟩
  apply answers_after_loads_in_any_order twinFiles atOneFile rfl first second (by decide)
    (by decide)
  intro location
  rw [first_touched, second_touched]
  simp only [List.map_cons, List.map_nil, List.mem_cons, List.not_mem_nil, or_false]
  tauto

end Session

end CodeFacts.Calls
