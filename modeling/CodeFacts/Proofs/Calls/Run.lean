import CodeFacts.Calls.Session
import CodeFacts.Proofs.Calls.Store

/-!
# Runs of a session

Whatever is asked of a session is an `Operation`, and a run takes one after the other, each with
the files as they are at that time. There are only three ways in which an operation changes the
session: it opens it, it empties the store, or it touches the one file that it is about and adds it
to the store. Every later statement about runs is derived from what these three do.
-/

namespace CodeFacts.Calls

/-- What can be asked of a session. -/
inductive Operation where
  | openAt (root : Path)
  | shutdown
  | declarations (file : Path)
  | calls (file : Path)
  | symbols (file : Path)
  | references (query : Query)
  | definition (query : Query)
  | prepare (query : Query)
  | incoming (item : Item)
  | outgoing (item : Item)
deriving DecidableEq

/-- The file that an operation reads before it answers. -/
def Operation.file? : Operation → Option Path
  | openAt _ | shutdown | incoming _ => none
  | declarations file | calls file | symbols file => some file
  | references query | definition query | prepare query => some query.file
  | outgoing item => some item.file

/-- What an operation answers. -/
inductive Response where
  | done
  | declarations (found : List Declaration)
  | calls (found : List CallSite)
  | symbols (found : List FileSymbol)
  | locations (found : List SourceLocation)
  | items (found : List Item)
  | incoming (found : List IncomingCall)
  | outgoing (found : List OutgoingCall)

/-- An operation and the files as they are when it is performed. -/
structure Step where
  files : FileSystem
  operation : Operation

namespace Session

/-- What a session answers to an operation, and the session after it. -/
def perform (files : FileSystem) (session : Session) :
    Operation → Except Failure Response × Session
  | .openAt root => (session.openAt files root).map (Except.map fun _ => .done) id
  | .shutdown => (.ok .done, session.shutdown)
  | .declarations file => (session.declarations files file).map (Except.map .declarations) id
  | .calls file => (session.calls files file).map (Except.map .calls) id
  | .symbols file => (session.symbols files file).map (Except.map .symbols) id
  | .references query => (session.references files query).map (Except.map .locations) id
  | .definition query => (session.definition files query).map (Except.map .locations) id
  | .prepare query => (session.prepare files query).map (Except.map .items) id
  | .incoming item => ((session.incoming item).map .incoming, session)
  | .outgoing item => (session.outgoing files item).map (Except.map .outgoing) id

/-- The session after one step. -/
def next (session : Session) (step : Step) : Session :=
  (session.perform step.files step.operation).2

@[simp]
theorem next_openAt (files : FileSystem) (session : Session) (root : Path) :
    session.next ⟨files, .openAt root⟩ = (session.openAt files root).2 := by
  simp [next, perform]

@[simp]
theorem next_shutdown (files : FileSystem) (session : Session) :
    session.next ⟨files, .shutdown⟩ = session.shutdown :=
  rfl

@[simp]
theorem next_incoming (files : FileSystem) (session : Session) (item : Item) :
    session.next ⟨files, .incoming item⟩ = session :=
  rfl

/-- The session after all steps of a run. -/
def run (session : Session) (steps : List Step) : Session :=
  steps.foldl next session

@[simp]
theorem run_nil (session : Session) : session.run [] = session :=
  rfl

@[simp]
theorem run_concat (session : Session) (steps : List Step) (step : Step) :
    session.run (steps ++ [step]) = (session.run steps).next step := by
  simp [run]

/-- What holds at the start and is kept by every step holds at the end. -/
theorem run_induction (invariant : Session → Prop) {steps : List Step} {session : Session}
    (start : invariant session)
    (keeps : ∀ step ∈ steps, ∀ session, invariant session → invariant (session.next step)) :
    invariant (session.run steps) :=
  List.foldlRecOn steps next start fun session holds step step_mem =>
    keeps step step_mem session holds

/-- The session after a file was asked about. -/
def touch (files : FileSystem) (session : Session) (file : Path) : Session :=
  match session.resolve file with
  | .error _ => session
  | .ok path => (session.load files path).2

theorem touch_of_resolve {files : FileSystem} {session : Session} {file path : Path}
    (resolved : session.resolve file = .ok path) :
    session.touch files file = (session.load files path).2 := by
  simp [touch, resolved]

theorem withFile_snd {α : Type} (files : FileSystem) (session : Session) (file : Path)
    (answer : Store → LoadedFile → List α) :
    (session.withFile files file answer).2 = session.touch files file := by
  unfold withFile touch
  cases session.resolve file with
  | error failure => rfl
  | ok path =>
      dsimp only
      rcases session.load files path with ⟨loaded, after⟩
      cases loaded <;> rfl

theorem next_of_file? {step : Step} {file : Path} (about : step.operation.file? = some file)
    (session : Session) : session.next step = session.touch step.files file := by
  rcases step with ⟨files, operation⟩
  cases operation <;> cases about
  all_goals
    simp [next, perform, declarations, calls, symbols, references, definition, prepare, outgoing,
      withFile_snd]

/-- What is kept by opening, by emptying and by touching a file is kept by every step. -/
theorem next_induction (invariant : Session → Prop) (step : Step) {session : Session}
    (holds : invariant session)
    (opens : ∀ root, invariant (session.openAt step.files root).2)
    (empties : step.operation = .shutdown → invariant session.shutdown)
    (touches : ∀ file, step.operation.file? = some file →
      invariant (session.touch step.files file)) :
    invariant (session.next step) := by
  cases about : step.operation.file? with
  | some file =>
      rw [next_of_file? about]
      exact touches file about
  | none =>
      rcases step with ⟨files, operation⟩
      cases operation with
      | openAt root => simpa using opens root
      | shutdown => exact empties rfl
      | incoming item => exact holds
      | _ => contradiction

/-- Opening a session sets the root, at most. -/
theorem openAt_snd_cases (files : FileSystem) (session : Session) (root : Path) :
    (session.openAt files root).2 = session ∨
      (session.openAt files root).2 =
        { session with root := some (Path.absolute files.workingDirectory root) } := by
  unfold openAt
  split
  · exact Or.inl rfl
  · dsimp only
    split
    · exact Or.inl rfl
    · exact Or.inr rfl
    · exact Or.inl rfl

@[simp]
theorem openAt_store (files : FileSystem) (session : Session) (root : Path) :
    (session.openAt files root).2.store = session.store := by
  rcases session.openAt_snd_cases files root with same | opened
  · rw [same]
  · rw [opened]

section Load

variable {files : FileSystem} {session : Session} {path : Path}

/-- A path is known already, or its file is read and added, or it cannot be read. -/
theorem load_cases (files : FileSystem) (session : Session) (path : Path) :
    (∃ loaded, session.store.get? path = some loaded ∧
        session.load files path = (some loaded, session)) ∨
      session.store.get? path = none ∧
        ((∃ fault, files.read path = .error fault ∧ session.load files path = (none, session)) ∨
          ∃ source, files.read path = .ok source ∧
            session.load files path =
              (some (LoadedFile.ofSource path source),
                ⟨session.root, session.store.add path source⟩)) := by
  unfold load
  cases known : session.store.get? path with
  | some loaded => exact Or.inl ⟨loaded, rfl, rfl⟩
  | none =>
      right
      cases read : files.read path with
      | error fault => exact ⟨rfl, Or.inl ⟨fault, rfl, rfl⟩⟩
      | ok source =>
          refine ⟨rfl, Or.inr ⟨source, rfl, ?_⟩⟩
          dsimp only
          rw [Store.insert_of_fresh known]

@[simp]
theorem load_root (files : FileSystem) (session : Session) (path : Path) :
    (session.load files path).2.root = session.root := by
  rcases session.load_cases files path with ⟨loaded, -, load⟩ | ⟨-, ⟨fault, -, load⟩ |
    ⟨source, -, load⟩⟩ <;> rw [load]

theorem load_of_error {fault : FileFault} (unreadable : files.read path = .error fault) :
    (session.load files path).2 = session := by
  rcases session.load_cases files path with ⟨loaded, -, load⟩ | ⟨-, ⟨_, -, load⟩ |
    ⟨source, read, -⟩⟩
  · rw [load]
  · rw [load]
  · rw [unreadable] at read
    contradiction

/-- A store that is filled from sources stays so: what is known of a path stays, and where nothing
is known, the file is read. -/
theorem exists_filledFrom_load {sources : PathMap SourceFile}
    (filled : session.store.FilledFrom sources) (files : FileSystem) (path : Path) :
    ∃ after, (session.load files path).2.store.FilledFrom after ∧
      ∀ wanted, after.get? wanted =
        (sources.get? wanted).or
          (if path.same wanted then (files.read path).toOption else none) := by
  rcases session.load_cases files path with ⟨loaded, known, load⟩ | ⟨fresh, ⟨fault, read, load⟩ |
    ⟨source, read, load⟩⟩
  · refine ⟨sources, by rwa [load], fun wanted => ?_⟩
    rw [filled.get?_eq] at known
    rcases Option.map_eq_some_iff.mp known with ⟨source, found, -⟩
    cases same : path.same wanted with
    | true => rw [← sources.get?_congr same, found, Option.some_or]
    | false => simp
  · refine ⟨sources, by rwa [load], fun wanted => ?_⟩
    simp [read, Except.toOption]
  · refine ⟨sources.insert path source, by rw [load]; exact filled.add fresh source, fun wanted => ?_⟩
    have unknown : sources.get? path = none := by simpa [filled.get?_eq] using fresh
    rw [PathMap.get?_insert]
    cases same : path.same wanted with
    | true =>
        rw [← sources.get?_congr same, unknown]
        simp [read, Except.toOption]
    | false => simp

/-- What was loaded is known afterwards, and loading it again changes nothing. -/
theorem get?_of_load {loaded : LoadedFile} {after : Session}
    (load : session.load files path = (some loaded, after)) :
    after.store.get? path = some loaded := by
  rcases session.load_cases files path with ⟨known, found, load'⟩ | ⟨fresh, ⟨fault, -, load'⟩ |
    ⟨source, read, load'⟩⟩
  · rw [load] at load'
    simp only [Prod.mk.injEq, Option.some.injEq] at load'
    rcases load' with ⟨rfl, rfl⟩
    exact found
  · rw [load] at load'
    simp at load'
  · rw [load] at load'
    simp only [Prod.mk.injEq, Option.some.injEq] at load'
    rcases load' with ⟨rfl, rfl⟩
    simp [Store.get?_add, Path.same]

theorem load_of_get? {loaded : LoadedFile} (known : session.store.get? path = some loaded)
    (files : FileSystem) : session.load files path = (some loaded, session) := by
  simp [load, known]

theorem withFile_of_load {α : Type} {file : Path} {loaded : LoadedFile} {after : Session}
    (resolved : session.resolve file = .ok path)
    (load : session.load files path = (some loaded, after))
    (answer : Store → LoadedFile → List α) :
    session.withFile files file answer = (.ok (answer after.store loaded), after) := by
  simp [withFile, resolved, load]

/-- An answer that is not empty comes from a file that is loaded afterwards. -/
theorem exists_load_of_withFile {α : Type} {file : Path} {answer : Store → LoadedFile → List α}
    {answers : List α} {after : Session} {given : α}
    (answered : session.withFile files file answer = (.ok answers, after))
    (given_mem : given ∈ answers) :
    ∃ path loaded, session.resolve file = .ok path ∧
      session.load files path = (some loaded, after) ∧ answers = answer after.store loaded := by
  unfold withFile at answered
  cases resolved : session.resolve file with
  | error failure => simp [resolved] at answered
  | ok path =>
      simp only [resolved] at answered
      rcases load : session.load files path with ⟨_ | loaded, later⟩
      · simp only [load, Prod.mk.injEq, Except.ok.injEq] at answered
        rw [← answered.1] at given_mem
        contradiction
      · simp only [load, Prod.mk.injEq, Except.ok.injEq] at answered
        rcases answered with ⟨rfl, rfl⟩
        exact ⟨path, loaded, rfl, load, rfl⟩

/-- Loading keeps the root, so paths are resolved as before. -/
theorem resolve_of_load {after : Session} {loaded : Option LoadedFile}
    (load : session.load files path = (loaded, after)) (file : Path) :
    after.resolve file = session.resolve file := by
  have root : after.root = session.root := by simpa [load] using session.load_root files path
  simp only [resolve, root]

end Load

/-- A root is absolute, and the store is well-formed. -/
structure WellFormed (session : Session) : Prop where
  root : ∀ root, session.root = some root → root.isAbsolute = true
  store : session.store.WellFormed

theorem wellFormed_new : new.WellFormed :=
  ⟨by simp [new], Store.wellFormed_empty⟩

theorem exists_root_of_resolve {session : Session} {file path : Path}
    (resolved : session.resolve file = .ok path) :
    ∃ root, session.root = some root ∧ path = (root.join file).normalize := by
  unfold resolve at resolved
  cases opened : session.root with
  | none => simp [opened] at resolved
  | some root =>
      simp only [opened, Except.ok.injEq] at resolved
      exact ⟨root, rfl, resolved.symm⟩

namespace WellFormed

variable {session : Session} (wellFormed : session.WellFormed)

include wellFormed

theorem isNormal_of_resolve {file path : Path} (resolved : session.resolve file = .ok path) :
    path.IsNormal := by
  rcases exists_root_of_resolve resolved with ⟨root, opened, rfl⟩
  exact Path.isNormal_normalize (Path.isAbsolute_join (wellFormed.root root opened) file)

theorem load {path : Path} (normal : path.IsNormal) (files : FileSystem) :
    (session.load files path).2.WellFormed := by
  refine ⟨by simpa using wellFormed.root, ?_⟩
  rcases session.load_cases files path with ⟨loaded, -, load⟩ | ⟨fresh, ⟨fault, -, load⟩ |
    ⟨source, -, load⟩⟩
  · simpa [load] using wellFormed.store
  · simpa [load] using wellFormed.store
  · rw [load]
    exact wellFormed.store.add normal fresh source

theorem touch (files : FileSystem) (file : Path) : (session.touch files file).WellFormed := by
  cases resolved : session.resolve file with
  | error failure => simpa [Session.touch, resolved] using wellFormed
  | ok path =>
      rw [touch_of_resolve resolved]
      exact wellFormed.load (wellFormed.isNormal_of_resolve resolved) files

theorem openAt (files : FileSystem) (root : Path) :
    (session.openAt files root).2.WellFormed := by
  rcases session.openAt_snd_cases files root with same | opened
  · rw [same]
    exact wellFormed
  · rw [opened]
    refine ⟨?_, wellFormed.store⟩
    rintro _ ⟨⟩
    exact Path.isAbsolute_normalize (Path.isAbsolute_join files.absolute root)

theorem next (step : Step) : (session.next step).WellFormed := by
  apply next_induction Session.WellFormed step wellFormed
  · exact wellFormed.openAt step.files
  · exact fun _ => ⟨wellFormed.root, Store.wellFormed_empty⟩
  · exact fun file _ => wellFormed.touch step.files file

theorem run (steps : List Step) : (session.run steps).WellFormed :=
  run_induction Session.WellFormed wellFormed fun step _ _ holds => holds.next step

end WellFormed

end Session

end CodeFacts.Calls
