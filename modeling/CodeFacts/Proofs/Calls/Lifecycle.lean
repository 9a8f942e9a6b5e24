import CodeFacts.Proofs.Calls.FirstLoad

/-!
# The life of a session

A session is closed until an opening finds a directory at its root. While it is closed, everything
that is asked is refused and nothing changes, so a failed opening is no obstacle to a later one.
The first opening that succeeds fixes the root. From then on every operation is answered, further
openings included, and neither they nor a shutdown touch the root.

What a step does depends on the root only in these two ways, so both phases are settled by one
lemma about a step each, and a run passes from the first to the second at most once.
-/

namespace CodeFacts.Calls

/-- Whether an operation asks for something that only an open session can tell. -/
def Operation.asks : Operation → Bool
  | openAt _ | shutdown => false
  | _ => true

namespace Session

/-- What a session answers to a step. -/
def answer (session : Session) (step : Step) : Except Failure Response :=
  (session.perform step.files step.operation).1

/-- The answers to all steps of a run. -/
def answers (session : Session) (steps : List Step) : List (Except Failure Response) :=
  (session.history steps).map fun taken => taken.1.answer taken.2

section Closed

variable {session : Session} (closed : session.root = none)

include closed

theorem withFile_of_closed {α : Type} (files : FileSystem) (file : Path)
    (answer : Store → LoadedFile → List α) :
    session.withFile files file answer = (.error .notInitialized, session) := by
  simp [withFile, resolve, closed]

theorem perform_of_closed {operation : Operation} (asks : operation.asks = true)
    (files : FileSystem) :
    session.perform files operation = (.error .notInitialized, session) := by
  cases operation with
  | openAt root => contradiction
  | shutdown => contradiction
  | incoming item =>
      simp only [perform, incoming, closed]
      rfl
  | _ =>
      simp only [perform, declarations, calls, symbols, references, definition, prepare, outgoing,
        withFile_of_closed closed]
      rfl

/-- An opening succeeds at a directory. -/
theorem openAt_of_isDirectory {files : FileSystem} {root : Path}
    (directory : files.isDirectory (Path.absolute files.workingDirectory root) = true) :
    session.openAt files root =
      (.ok (), { session with root := some (Path.absolute files.workingDirectory root) }) := by
  have found : files.lookup (Path.absolute files.workingDirectory root) = .ok .directory := by
    unfold FileSystem.isDirectory at directory
    split at directory
    · rename_i found
      exact found
    · simp at directory
  simp [openAt, closed, found]

/-- An opening that does not find a directory fails and changes nothing. -/
theorem openAt_of_not_isDirectory {files : FileSystem} {root : Path}
    (elsewhere : files.isDirectory (Path.absolute files.workingDirectory root) = false) :
    ∃ fault, session.openAt files root =
      (.error (.io (Path.absolute files.workingDirectory root) fault), session) := by
  cases found : files.lookup (Path.absolute files.workingDirectory root) with
  | error fault => exact ⟨fault, by simp [openAt, closed, found]⟩
  | ok entry =>
      cases entry with
      | directory => simp [FileSystem.isDirectory, found] at elsewhere
      | file source => exact ⟨.rootNotDirectory, by simp [openAt, closed, found]⟩
      | link target => exact ⟨.rootNotDirectory, by simp [openAt, closed, found]⟩

end Closed

section Open

variable {session : Session} {root : Path} (opened : session.root = some root)

include opened

theorem exists_withFile_of_open {α : Type} (files : FileSystem) (file : Path)
    (answer : Store → LoadedFile → List α) :
    ∃ found, (session.withFile files file answer).1 = .ok found := by
  simp only [withFile, resolve, opened]
  rcases session.load files (root.join file).normalize with ⟨_ | loaded, after⟩
  · exact ⟨[], rfl⟩
  · exact ⟨answer after.store loaded, rfl⟩

/-- An open session has an answer to everything. -/
theorem exists_answer_of_open (step : Step) : ∃ response, session.answer step = .ok response := by
  have asked {α : Type} (file : Path) (find : Store → LoadedFile → List α)
      (respond : List α → Response) :
      ∃ response, ((session.withFile step.files file find).map (Except.map respond) id).1 =
        .ok response := by
    rcases exists_withFile_of_open opened step.files file find with ⟨found, answered⟩
    exact ⟨respond found, by simp [answered, Except.map]⟩
  rcases step with ⟨files, operation⟩
  cases operation with
  | openAt other => exact ⟨.done, by simp [answer, perform, openAt, opened, Except.map]⟩
  | shutdown => exact ⟨.done, rfl⟩
  | incoming item =>
      exact ⟨.incoming (session.store.incoming item.name), by
        simp [answer, perform, incoming, opened, Except.map]⟩
  | declarations file => exact asked file _ .declarations
  | calls file => exact asked file _ .calls
  | symbols file => exact asked file _ .symbols
  | references query => exact asked query.file _ .locations
  | definition query => exact asked query.file _ .locations
  | prepare query => exact asked query.file _ .items
  | outgoing item => exact asked item.file _ .outgoing

/-- Nothing moves the root of an open session. -/
theorem root_next_of_open (step : Step) : (session.next step).root = some root := by
  apply next_induction (fun later => later.root = some root) step opened
  · intro other
    simp [openAt, opened]
  · intro _
    exact opened
  · intro file _
    simp [touch, resolve, opened]

end Open

/-- What becomes of a step that leaves a session closed: what it asks is refused, its opening fails
for want of a directory, and the session stays as it is. -/
structure LeavesClosed (taken : Session × Step) : Prop where
  unchanged : taken.1.next taken.2 = taken.1
  refused : taken.2.operation.asks = true → taken.1.answer taken.2 = .error .notInitialized
  failed : ∀ root, taken.2.operation = .openAt root →
    let place := Path.absolute taken.2.files.workingDirectory root
    taken.2.files.isDirectory place = false ∧
      ∃ fault, taken.1.answer taken.2 = .error (.io place fault)

/-- What becomes of a step in an open session: it is answered, and the root is the same after it. -/
structure KeepsOpen (root : Path) (taken : Session × Step) : Prop where
  before : taken.1.root = some root
  after : (taken.1.next taken.2).root = some root
  answered : ∃ response, taken.1.answer taken.2 = .ok response

/-- The first step of a new session leaves it closed, unless it opens it at a directory. -/
theorem leavesClosed_or_opens (step : Step) :
    LeavesClosed (new, step) ∨
      ∃ root, step.operation = .openAt root ∧
        step.files.isDirectory (Path.absolute step.files.workingDirectory root) = true := by
  rcases step with ⟨files, operation⟩
  cases asks : operation.asks with
  | true =>
      have refused : new.perform files operation = (.error .notInitialized, new) :=
        perform_of_closed rfl asks files
      refine Or.inl ⟨?_, ?_, ?_⟩
      · simp [next, refused]
      · intro _
        simp [answer, refused]
      · rintro root rfl
        contradiction
  | false =>
      cases operation with
      | shutdown => exact Or.inl ⟨rfl, by simp [asks], by simp⟩
      | openAt root =>
          cases directory : files.isDirectory (Path.absolute files.workingDirectory root) with
          | true => exact Or.inr ⟨root, rfl, directory⟩
          | false =>
              have closed : new.root = none := rfl
              rcases openAt_of_not_isDirectory closed directory with ⟨fault, fails⟩
              refine Or.inl ⟨?_, by simp [asks], ?_⟩
              · simp [fails]
              · rintro _ ⟨⟩
                exact ⟨directory, fault, by simp [answer, perform, fails, Except.map]⟩
      | _ => contradiction

theorem keepsOpen_of_mem_history {root : Path} {session : Session}
    (opened : session.root = some root) {steps : List Step} :
    ∀ taken ∈ session.history steps, KeepsOpen root taken := by
  induction steps generalizing session with
  | nil => simp [history]
  | cons step rest ih =>
      have kept := root_next_of_open opened step
      intro taken taken_mem
      rcases List.mem_cons.mp taken_mem with rfl | later
      · exact ⟨opened, kept, exists_answer_of_open opened step⟩
      · exact ih kept taken later

/-- In every run a session stays closed, or there is a first opening that finds a directory: up to
it the session is closed, and after it the session is open at that root for good. -/
theorem opens_once_and_for_all (steps : List Step) :
    (∀ taken ∈ new.history steps, LeavesClosed taken) ∨
      ∃ before files root after, steps = before ++ ⟨files, .openAt root⟩ :: after ∧
        (∀ taken ∈ new.history before, LeavesClosed taken) ∧
        let place := Path.absolute files.workingDirectory root
        let opened : Session := ⟨some place, Store.empty⟩
        files.isDirectory place = true ∧
          (place.isAbsolute = true ∧ place.normalize = place) ∧
          (new.run before).perform files (.openAt root) = (.ok .done, opened) ∧
          ∀ taken ∈ opened.history after, KeepsOpen place taken := by
  induction steps with
  | nil => exact Or.inl (by simp [history])
  | cons step rest ih =>
      rcases leavesClosed_or_opens step with closed | ⟨root, opens, directory⟩
      · -- The session is new again, so what holds of the other steps holds after this one.
        have unchanged : new.next step = new := closed.unchanged
        have first : ∀ others, (∀ taken ∈ new.history others, LeavesClosed taken) →
            ∀ taken ∈ new.history (step :: others), LeavesClosed taken := by
          intro others rest_closed
          simp only [history, unchanged]
          exact List.forall_mem_cons.mpr ⟨closed, rest_closed⟩
        rcases ih with rest_closed | ⟨before, files, root, after, rfl, before_closed, opening⟩
        · exact Or.inl (first rest rest_closed)
        · refine Or.inr ⟨step :: before, files, root, after, rfl, first before before_closed, ?_⟩
          simpa only [run, List.foldl_cons, unchanged] using opening
      · rcases step with ⟨files, operation⟩
        cases opens
        refine Or.inr ⟨[], files, root, rest, rfl, by simp [history], directory, ?_, ?_, ?_⟩
        · have normal := Path.isNormal_normalize (Path.isAbsolute_join files.absolute root)
          exact ⟨normal.absolute, normal.normalized⟩
        · rw [run_nil, perform, openAt_of_isDirectory rfl directory]
          rfl
        · exact keepsOpen_of_mem_history rfl

end Session

end CodeFacts.Calls
