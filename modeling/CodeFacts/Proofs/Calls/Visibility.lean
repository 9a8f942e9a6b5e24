import CodeFacts.Proofs.Calls.Duality
import CodeFacts.Proofs.Calls.LoadOrder
import CodeFacts.Proofs.FileSystem.Agreement

/-!
# What a session can see

A session looks at the disk in two places only: at the root on which it is to be opened, and at the
file that an operation is about. So two disks with the same directories that agree on the files
which the operations load give the same answers, whatever else is on them. There is one exception:
why an opening fails is told by what stands at its root, and that is not a file that is loaded.

All places that an answer names lie in files which were loaded since the last shutdown.
-/

namespace CodeFacts.Calls

/-- The files in which the places lie that a response names. -/
def Response.files : Response → List Path
  | done | declarations _ | calls _ => []
  | symbols found => found.map fun symbol => symbol.location.file
  | locations found => found.map SourceLocation.file
  | items found => found.map Item.file
  | incoming found => found.map fun group => group.caller.file
  | outgoing found => found.filterMap fun group => group.target.map Item.file

/-- Two answers to an operation are equal, or the operation is an opening that failed at the same
place, for whatever cause. -/
inductive Alike : Operation → Except Failure Response → Except Failure Response → Prop where
  | same (operation : Operation) (answer : Except Failure Response) : Alike operation answer answer
  | unopened (root place : Path) (first second : FileFault) :
      Alike (.openAt root) (.error (.io place first)) (.error (.io place second))

namespace Store

variable {store : Store} {loaded : LoadedFile}

theorem get?_path_ne_none {file : LoadedFile} (file_mem : file ∈ store.files) :
    store.get? file.path ≠ none := by
  rw [ne_eq, get?_eq_none_iff, not_not]
  exact List.mem_map_of_mem file_mem

theorem exists_file_of_mem_declarationsNamed {name : String} {preferred : Path} {item : Item}
    (item_mem : item ∈ store.declarationsNamed name preferred) :
    ∃ file ∈ store.files, item.file = file.path := by
  simp only [declarationsNamed, List.mem_flatMap, List.mem_append, List.mem_filter, List.mem_map]
    at item_mem
  rcases item_mem with ⟨file, file_mem, declaration, -, rfl⟩
  exact ⟨file, file_mem.elim And.left And.left, rfl⟩

theorem exists_file_of_mem_references {name : String} {location : SourceLocation}
    (location_mem : location ∈ store.references name) :
    ∃ file ∈ store.files, location.file = file.path := by
  rcases List.mem_map.mp location_mem with ⟨⟨file, call⟩, targeting, rfl⟩
  exact ⟨file, (mem_callsTargeting_iff.mp targeting).1, rfl⟩

theorem exists_file_of_mem_incoming {name : String} {group : IncomingCall}
    (group_mem : group ∈ store.incoming name) :
    ∃ file ∈ store.files, group.caller.file = file.path := by
  rcases mem_incoming_iff.mp group_mem with ⟨file, call, targeting, rfl⟩
  exact ⟨file, (mem_callsTargeting_iff.mp targeting).1, itemAt_file file call.line⟩

theorem exists_file_of_mem_outgoing {item target : Item} {group : OutgoingCall}
    (group_mem : group ∈ store.outgoing loaded item) (leads : group.target = some target) :
    ∃ file ∈ store.files, target.file = file.path := by
  rw [outgoing_eq_grouped] at group_mem
  rcases mem_grouped_iff.mp group_mem with ⟨call, -, rfl⟩
  exact exists_file_of_mem_declarationsNamed (List.mem_of_head? leads)

theorem exists_file_of_mem_definition {position : Position} {location : SourceLocation}
    (location_mem : location ∈ store.definition loaded position) :
    location.file = loaded.path ∨ ∃ file ∈ store.files, location.file = file.path := by
  unfold definition at location_mem
  split at location_mem
  · rcases List.mem_map.mp location_mem with ⟨item, item_mem, rfl⟩
    exact Or.inr (exists_file_of_mem_declarationsNamed item_mem)
  · rcases Option.map_eq_some_iff.mp (Option.mem_toList.mp location_mem) with
      ⟨declaration, -, rfl⟩
    exact Or.inl rfl

end Store

namespace Session

section Answers

variable {session : Session} {files : FileSystem}

/-- What is found for a file names only the file itself and others that are loaded. -/
theorem known_of_withFile {α : Type} {file : Path} {find : Store → LoadedFile → List α}
    {respond : List α → Response} {response : Response}
    (nothing : (respond []).files = [])
    (within : ∀ store loaded, ∀ path ∈ (respond (find store loaded)).files,
      path = loaded.path ∨ ∃ known ∈ store.files, path = known.path)
    (answered : ((session.withFile files file find).map (Except.map respond) id).1 = .ok response) :
    ∀ path ∈ response.files, (session.touch files file).store.get? path ≠ none := by
  intro path path_mem
  rw [← withFile_snd files session file find]
  unfold withFile at answered ⊢
  cases resolved : session.resolve file with
  | error failure => simp [resolved, Except.map] at answered
  | ok named =>
      rcases load : session.load files named with ⟨_ | loaded, after⟩
      · simp only [resolved, load, Prod.map_fst, Except.map, Except.ok.injEq] at answered
        rw [← answered, nothing] at path_mem
        contradiction
      · simp only [resolved, load, Prod.map_fst, Except.map, Except.ok.injEq] at answered ⊢
        have found := get?_of_load load
        rw [← answered] at path_mem
        rcases within after.store loaded path path_mem with rfl | ⟨known, known_mem, rfl⟩
        · rcases Store.exists_of_get? found with ⟨other, -, -, rfl⟩
          simp [found]
        · exact Store.get?_path_ne_none known_mem

/-- All places that an answer names lie in files that are loaded after it. -/
theorem known_of_answer {step : Step} {response : Response}
    (answered : session.answer step = .ok response) :
    ∀ path ∈ response.files, (session.next step).store.get? path ≠ none := by
  rcases step with ⟨files, operation⟩
  cases operation with
  | openAt root =>
      rcases opening : (session.openAt files root).1 with failure | _ <;>
        simp only [answer, perform, Prod.map_fst, opening, Except.map, reduceCtorEq,
          Except.ok.injEq] at answered
      simp [← answered, Response.files]
  | shutdown =>
      cases answered
      simp [Response.files]
  | incoming item =>
      cases opened : session.root with
      | none => simp [answer, perform, incoming, opened, Except.map] at answered
      | some root =>
          simp only [answer, perform, incoming, opened, Except.map, Except.ok.injEq] at answered
          subst answered
          intro path path_mem
          rcases List.mem_map.mp path_mem with ⟨group, group_mem, rfl⟩
          rcases Store.exists_file_of_mem_incoming group_mem with ⟨file, file_mem, same⟩
          rw [same]
          exact Store.get?_path_ne_none file_mem
  | declarations file =>
      rw [next_of_file? rfl]
      exact known_of_withFile rfl (by simp [Response.files]) answered
  | calls file =>
      rw [next_of_file? rfl]
      exact known_of_withFile rfl (by simp [Response.files]) answered
  | symbols file =>
      rw [next_of_file? rfl]
      refine known_of_withFile rfl ?_ answered
      intro store loaded path path_mem
      simp only [Response.files, List.map_map, List.mem_map] at path_mem
      rcases path_mem with ⟨declaration, -, rfl⟩
      exact Or.inl rfl
  | references query =>
      rw [next_of_file? rfl]
      refine known_of_withFile rfl ?_ answered
      intro store loaded path path_mem
      rcases List.mem_map.mp path_mem with ⟨location, location_mem, rfl⟩
      split at location_mem
      · contradiction
      · exact Or.inr (Store.exists_file_of_mem_references location_mem)
  | definition query =>
      rw [next_of_file? rfl]
      refine known_of_withFile rfl ?_ answered
      intro store loaded path path_mem
      rcases List.mem_map.mp path_mem with ⟨location, location_mem, rfl⟩
      exact Store.exists_file_of_mem_definition location_mem
  | prepare query =>
      rw [next_of_file? rfl]
      refine known_of_withFile rfl ?_ answered
      intro store loaded path path_mem
      rcases List.mem_map.mp path_mem with ⟨item, item_mem, rfl⟩
      rcases Option.map_eq_some_iff.mp (Option.mem_toList.mp item_mem) with ⟨declaration, -, rfl⟩
      exact Or.inl rfl
  | outgoing item =>
      rw [next_of_file? rfl]
      refine known_of_withFile rfl ?_ answered
      intro store loaded path path_mem
      rcases List.mem_filterMap.mp path_mem with ⟨group, group_mem, lies⟩
      rcases Option.map_eq_some_iff.mp lies with ⟨target, leads, rfl⟩
      exact Or.inr (Store.exists_file_of_mem_outgoing group_mem leads)

end Answers

section Agreement

variable {first second : FileSystem} {session : Session}

theorem load_congr {path : Path} (agree : first.AgreeAt second path) :
    session.load first path = session.load second path := by
  unfold load
  unfold FileSystem.AgreeAt at agree
  cases session.store.get? path with
  | some loaded => rfl
  | none =>
      cases one : first.read path <;> cases other : second.read path <;>
        simp_all [Except.toOption]

theorem withFile_congr {α : Type} {file : Path}
    (agree : ∀ path, session.resolve file = .ok path → first.AgreeAt second path)
    (find : Store → LoadedFile → List α) :
    session.withFile first file find = session.withFile second file find := by
  unfold withFile
  cases resolved : session.resolve file with
  | error failure => rfl
  | ok path => simp only [load_congr (agree path resolved)]

theorem perform_congr {operation : Operation} (asks : operation.asks = true)
    (agree : ∀ path, session.touches? operation = some path → first.AgreeAt second path) :
    session.perform first operation = session.perform second operation := by
  have named : ∀ file, operation.file? = some file →
      ∀ path, session.resolve file = .ok path → first.AgreeAt second path := by
    intro file about path resolved
    exact agree path (by simp [touches?, about, resolved, Except.toOption])
  cases operation with
  | openAt root => contradiction
  | shutdown => contradiction
  | incoming item => rfl
  | _ =>
      simp only [perform, declarations, calls, symbols, references, definition, prepare, outgoing,
        withFile_congr (named _ rfl)]

/-- Whether and why an opening fails does not depend on what was loaded. -/
theorem answer_openAt_of_closed (closed : session.root = none) (files : FileSystem) (root : Path) :
    session.answer ⟨files, .openAt root⟩ = new.answer ⟨files, .openAt root⟩ := by
  simp only [answer, perform, openAt, closed, new]
  rcases files.lookup (Path.absolute files.workingDirectory root) with fault | _ | _ | _ <;> rfl

theorem next_openAt_congr (closed : session.root = none)
    (directories : first.SameDirectories second) (root : Path) :
    session.next ⟨first, .openAt root⟩ = session.next ⟨second, .openAt root⟩ := by
  have place := directories.isDirectory (Path.absolute first.workingDirectory root)
  rw [next_openAt, next_openAt]
  cases directory : first.isDirectory (Path.absolute first.workingDirectory root) with
  | true =>
      rw [directory, directories.workingDirectory] at place
      rw [openAt_of_isDirectory closed directory, openAt_of_isDirectory closed place.symm,
        directories.workingDirectory]
  | false =>
      rw [directory, directories.workingDirectory] at place
      rcases openAt_of_not_isDirectory closed directory with ⟨_, fails⟩
      rcases openAt_of_not_isDirectory closed place.symm with ⟨_, fails_too⟩
      rw [fails, fails_too]

/-- One step: the sessions are the same afterwards, and the answers are related if those of
openings are. -/
theorem perform_related (directories : first.SameDirectories second) {operation : Operation}
    {related : Operation → Except Failure Response → Except Failure Response → Prop}
    (reflexive : ∀ operation given, related operation given given)
    (openings : ∀ root, operation = .openAt root → related (.openAt root)
      (new.answer ⟨first, .openAt root⟩) (new.answer ⟨second, .openAt root⟩))
    (agree : ∀ path, session.touches? operation = some path → first.AgreeAt second path) :
    session.next ⟨first, operation⟩ = session.next ⟨second, operation⟩ ∧
      related operation (session.answer ⟨first, operation⟩)
        (session.answer ⟨second, operation⟩) := by
  cases asks : operation.asks with
  | true =>
      have same := perform_congr asks agree
      simp only [next, answer, same, reflexive, and_self]
  | false =>
      cases operation with
      | shutdown => exact ⟨rfl, reflexive _ _⟩
      | openAt root =>
          cases opened : session.root with
          | some place =>
              simp only [next_openAt, answer, perform, openAt, opened, reflexive, and_self]
          | none =>
              rw [answer_openAt_of_closed opened, answer_openAt_of_closed opened]
              exact ⟨next_openAt_congr opened directories root, openings root rfl⟩
      | _ => contradiction

/-- A whole run: the answers are related one by one if those of openings are. -/
theorem answers_related (directories : first.SameDirectories second)
    {related : Operation → Except Failure Response → Except Failure Response → Prop}
    (reflexive : ∀ operation given, related operation given given) {operations : List Operation}
    (openings : ∀ root, .openAt root ∈ operations → related (.openAt root)
      (new.answer ⟨first, .openAt root⟩) (new.answer ⟨second, .openAt root⟩))
    (agree : ∀ taken ∈ session.history (unchanging first operations),
      ∀ path, taken.1.touches? taken.2.operation = some path → first.AgreeAt second path) :
    List.Forall₂ (fun asked other => related asked.1 asked.2 other)
      (operations.zip (session.answers (unchanging first operations)))
      (session.answers (unchanging second operations)) := by
  induction operations generalizing session with
  | nil => exact List.Forall₂.nil
  | cons operation rest ih =>
      simp only [unchanging, List.map_cons, history, List.forall_mem_cons] at agree
      rcases perform_related directories reflexive
        (fun root opens => openings root (by simp [opens])) agree.1 with ⟨next_eq, now⟩
      refine List.Forall₂.cons now ?_
      have later := ih (fun root opens => openings root (List.mem_cons_of_mem _ opens)) agree.2
      rwa [← next_eq]

theorem openings_of_isDirectory (directories : first.SameDirectories second) {root : Path}
    (directory : first.isDirectory (Path.absolute first.workingDirectory root) = true) :
    new.answer ⟨first, .openAt root⟩ = new.answer ⟨second, .openAt root⟩ := by
  have place := directories.isDirectory (Path.absolute first.workingDirectory root)
  rw [directory, directories.workingDirectory] at place
  simp only [answer, perform]
  rw [openAt_of_isDirectory rfl directory, openAt_of_isDirectory rfl place.symm]
  rfl

theorem alike_openings (directories : first.SameDirectories second) (root : Path) :
    Alike (.openAt root) (new.answer ⟨first, .openAt root⟩)
      (new.answer ⟨second, .openAt root⟩) := by
  cases directory : first.isDirectory (Path.absolute first.workingDirectory root) with
  | true =>
      rw [openings_of_isDirectory directories directory]
      exact .same _ _
  | false =>
      have place := directories.isDirectory (Path.absolute first.workingDirectory root)
      rw [directory, directories.workingDirectory] at place
      have closed : new.root = none := rfl
      rcases openAt_of_not_isDirectory closed directory with ⟨one, fails⟩
      rcases openAt_of_not_isDirectory closed place.symm with ⟨other, fails_too⟩
      simp only [answer, perform]
      rw [fails, fails_too, directories.workingDirectory]
      exact .unopened root _ one other

theorem length_answers (session : Session) (steps : List Step) :
    (session.answers steps).length = steps.length := by
  rw [answers, List.length_map]
  induction steps generalizing session with
  | nil => rfl
  | cons step rest ih => rw [history, List.length_cons, List.length_cons, ih]

theorem answers_eq_of_openings (directories : first.SameDirectories second)
    {operations : List Operation}
    (agree : ∀ taken ∈ session.history (unchanging first operations),
      ∀ path, taken.1.touches? taken.2.operation = some path → first.AgreeAt second path)
    (openings : ∀ root, .openAt root ∈ operations →
      new.answer ⟨first, .openAt root⟩ = new.answer ⟨second, .openAt root⟩) :
    session.answers (unchanging first operations) =
      session.answers (unchanging second operations) := by
  have equal := @answers_related first second session directories
    (fun _ one other => one = other) (fun _ _ => rfl) operations openings agree
  rw [← List.forall₂_map_left_iff, List.map_snd_zip, List.forall₂_eq_eq_eq] at equal
  · exact equal
  · rw [length_answers, unchanging, List.length_map]

end Agreement

/-- On two disks with the same directories that agree on all files which operations load, the
answers are equal, except that a failed opening may tell another cause; if openings fail alike, all
answers are equal. Whatever is asked, all places in the answer lie in files that were loaded since
the last shutdown. -/
theorem answers_depend_on_loaded_files (operations : List Operation) (first second : FileSystem)
    (directories : first.SameDirectories second)
    (agree : ∀ taken ∈ new.history (unchanging first operations),
      ∀ path, taken.1.touches? taken.2.operation = some path → first.AgreeAt second path) :
    List.Forall₂ (fun asked other => Alike asked.1 asked.2 other)
        (operations.zip (new.answers (unchanging first operations)))
        (new.answers (unchanging second operations)) ∧
      ((∀ root, .openAt root ∈ operations →
          new.answer ⟨first, .openAt root⟩ = new.answer ⟨second, .openAt root⟩) →
        new.answers (unchanging first operations) = new.answers (unchanging second operations)) ∧
      ∀ steps step response, (new.run steps).answer step = .ok response →
        ∀ path ∈ response.files, (firstLoad? (steps ++ [step]) path).isSome = true := by
  refine ⟨?_, ?_, ?_⟩
  · exact answers_related directories .same (fun root _ => alike_openings directories root) agree
  · exact answers_eq_of_openings directories agree
  · intro steps step response answered path path_mem
    have known := known_of_answer answered path path_mem
    rw [← run_concat, get?_run] at known
    simpa [Option.isSome_iff_ne_none] using known

theorem touches?_congr {first second : Session} (same : first.root = second.root)
    (operation : Operation) : first.touches? operation = second.touches? operation := by
  simp only [touches?, resolve, same]

/-- A file that is never loaded stays unseen, although it has the same function and calls it. -/
theorem answers_ignore_unloaded_twin :
    let first := oneFile recursiveSource
    let second := first.put ["p", "b.py"] (.file recursiveSource)
    let operations : List Operation :=
      [.openAt ⟨"."⟩, .symbols ⟨"a.py"⟩, .references ⟨⟨"./a.py"⟩, ⟨1, 1⟩⟩]
    first.SameDirectories second ∧
      (∀ taken ∈ new.history (unchanging first operations), ∀ path,
        taken.1.touches? taken.2.operation = some path → first.AgreeAt second path) ∧
      new.answers (unchanging first operations) = new.answers (unchanging second operations) := by
  intro first second operations
  have fresh : first.entry? ["p", "b.py"] = none := by rfl
  have proper : ∀ name ∈ ["p", "b.py"], Path.IsName name := by decide
  have directories : first.SameDirectories second :=
    FileSystem.sameDirectories_put_file proper fresh recursiveSource
  have agree_at : ∀ path, some ⟨"/p/a.py"⟩ = some path → first.AgreeAt second path := by
    rintro path ⟨⟩
    have segments : (Path.join ⟨"/p"⟩ ⟨"/p/a.py"⟩).segmentTexts = ["", "p", "a.py"] := by decide
    have located := locate_oneFile recursiveSource ⟨"/p/a.py"⟩ (by decide) (by rw [segments]; rfl)
    exact FileSystem.agreeAt_put_file proper fresh recursiveSource located (by decide)
  have agree : ∀ taken ∈ new.history (unchanging first operations), ∀ path,
      taken.1.touches? taken.2.operation = some path → first.AgreeAt second path := by
    have opened : new.next ⟨first, .openAt ⟨"."⟩⟩ = atOneFile := openAt_oneFile recursiveSource
    have loads : atOneFile.touches? (.symbols ⟨"a.py"⟩) = some ⟨"/p/a.py"⟩ := by decide
    have asks : atOneFile.touches? (.references ⟨⟨"./a.py"⟩, ⟨1, 1⟩⟩) = some ⟨"/p/a.py"⟩ := by
      decide
    simp only [operations, unchanging, List.map_cons, List.map_nil, history, opened,
      List.forall_mem_cons]
    refine ⟨by simp [touches?, Operation.file?], ?_, ?_, by simp⟩
    · rwa [loads]
    · have root : (atOneFile.next ⟨first, .symbols ⟨"a.py"⟩⟩).root = atOneFile.root :=
        root_next_of_open rfl _
      rwa [touches?_congr root, asks]
  have opening : new.answer ⟨first, .openAt ⟨"."⟩⟩ = new.answer ⟨second, .openAt ⟨"."⟩⟩ := by
    have root : Path.absolute ⟨"/p"⟩ ⟨"."⟩ = ⟨"/p"⟩ := by decide
    refine openings_of_isDirectory directories ?_
    change first.isDirectory (Path.absolute ⟨"/p"⟩ ⟨"."⟩) = true
    rw [root, FileSystem.isDirectory, lookup_oneFile]
  refine ⟨directories, agree, ?_⟩
  refine (answers_depend_on_loaded_files operations first second directories agree).2.1 ?_
  simpa [operations] using opening

/-- Why an opening fails can depend on a file that no operation loads. -/
theorem failed_opening_sees_unloaded_file :
    let first := FileSystem.empty
    let second := first.put ["x"] (.file recursiveSource)
    let operations : List Operation := [.openAt ⟨"x"⟩]
    first.SameDirectories second ∧
      (∀ taken ∈ new.history (unchanging first operations), ∀ path,
        taken.1.touches? taken.2.operation = some path → first.AgreeAt second path) ∧
      new.answers (unchanging first operations) = [.error (.io ⟨"/x"⟩ .noSuchEntry)] ∧
      new.answers (unchanging second operations) = [.error (.io ⟨"/x"⟩ .rootNotDirectory)] := by
  intro first second operations
  have named : Path.absolute ⟨"/"⟩ ⟨"x"⟩ = ⟨"/x"⟩ := by decide
  have segments : (Path.join ⟨"/"⟩ ⟨"/x"⟩).segmentTexts = ["", "x"] := by decide
  have plain : FileSystem.pathFault? ⟨"/x"⟩ = none := by decide
  have missing : first.lookup ⟨"/x"⟩ = .error .noSuchEntry := by
    simp only [FileSystem.lookup, FileSystem.locate, plain, first]
    rfl
  have proper : ∀ name ∈ ["x"], Path.IsName name := by decide
  have standing : second.lookup ⟨"/x"⟩ = .ok (.file recursiveSource) := by
    have works : second.workingDirectory = ⟨"/"⟩ := FileSystem.put_workingDirectory _ _ _
    rw [FileSystem.lookup, FileSystem.locate, plain, works, segments]
    simp only [second, FileSystem.put, dif_pos proper]
    rfl
  refine ⟨FileSystem.sameDirectories_put_file proper rfl recursiveSource, ?_, ?_, ?_⟩
  · simp [operations, unchanging, history, touches?, Operation.file?]
  · have place : Path.absolute first.workingDirectory ⟨"x"⟩ = ⟨"/x"⟩ := named
    simp only [operations, unchanging, answers, history, List.map_cons, List.map_nil, answer,
      perform, openAt, new, place, missing]
    rfl
  · have place : Path.absolute second.workingDirectory ⟨"x"⟩ = ⟨"/x"⟩ := named
    simp only [operations, unchanging, answers, history, List.map_cons, List.map_nil, answer,
      perform, openAt, new, place, standing]
    rfl

end Session

end CodeFacts.Calls
