import CodeFacts.Proofs.Calls.FirstLoad
import CodeFacts.Proofs.Calls.Groups

/-!
# References and callers

The references of a declaration are a flat list of calls, its callers a list of groups. Both are
taken from the same calls of the loaded files. Reading the groups one after the other gives the
references again, in another order.
-/

namespace CodeFacts.Calls

/-- A line and a column of a file. -/
abbrev Place := Path × Position

/-- Where a location starts. -/
def SourceLocation.place (location : SourceLocation) : Place :=
  (location.file, ⟨location.line, location.column⟩)

/-- Where the calls of a group stand, in the file of their caller. -/
def IncomingCall.places (group : IncomingCall) : List Place :=
  group.ranges.map fun position => (group.caller.file, position)

/-- The declaration that a file has at a line, or else its top level. -/
def LoadedFile.itemAt (file : LoadedFile) (line : Nat) : Item :=
  match declarationAt? file.declarations line with
  | some declaration => Item.ofDeclaration file.path declaration
  | none => Item.topLevel file.path

theorem callerOf_eq_itemAt (file : LoadedFile) (call : CallSite) :
    callerOf file call = file.itemAt call.line :=
  rfl

@[simp]
theorem itemAt_file (file : LoadedFile) (line : Nat) : (file.itemAt line).file = file.path := by
  unfold LoadedFile.itemAt
  split <;> rfl

/-- The groups hold the locations, each in the group of the item at its line, and no group is
empty or stands twice. -/
structure SortedByCaller (store : Store) (locations : List SourceLocation)
    (groups : List IncomingCall) : Prop where
  perm : (locations.map SourceLocation.place).Perm (groups.flatMap IncomingCall.places)
  distinct : (groups.map IncomingCall.caller).Nodup
  nonempty : ∀ group ∈ groups, group.ranges ≠ []
  caller : ∀ group ∈ groups, ∀ position ∈ group.ranges,
    ∃ file ∈ store.files, group.caller = file.itemAt position.line
  group : ∀ location ∈ locations, ∃ file ∈ store.files, file.path = location.file ∧
    ∃ group ∈ groups, group.caller = file.itemAt location.line ∧
      ⟨location.line, location.column⟩ ∈ group.ranges

namespace Store

theorem mem_callsTargeting_iff {store : Store} {name : String} {file : LoadedFile}
    {call : CallSite} :
    (file, call) ∈ store.callsTargeting name ↔
      file ∈ store.files ∧ call ∈ file.calls ∧ call.bareName = name := by
  simp only [callsTargeting, List.mem_flatMap, List.mem_map, List.mem_filter, CallSite.targets,
    beq_iff_eq, Prod.mk.injEq]
  constructor
  · rintro ⟨_, file_mem, _, ⟨call_mem, targets⟩, rfl, rfl⟩
    exact ⟨file_mem, call_mem, targets⟩
  · rintro ⟨file_mem, call_mem, targets⟩
    exact ⟨file, file_mem, call, ⟨call_mem, targets⟩, rfl, rfl⟩

theorem mem_incoming_iff {store : Store} {name : String} {group : IncomingCall} :
    group ∈ store.incoming name ↔
      ∃ file call, (file, call) ∈ store.callsTargeting name ∧
        group = ⟨callerOf file call, positionsOf
          (fun found : LoadedFile × CallSite => callerOf found.1 found.2)
          (fun found => found.2.position) (store.callsTargeting name) (callerOf file call)⟩ := by
  rw [incoming_eq_grouped, mem_grouped_iff]
  simp [eq_comm]

/-- A position stands in the groups of a name exactly where a file calls the name there. -/
theorem mem_ranges_of_mem_incoming {store : Store} {name : String} {group : IncomingCall}
    (group_mem : group ∈ store.incoming name) {position : Position} :
    position ∈ group.ranges ↔
      ∃ file call, (file, call) ∈ store.callsTargeting name ∧ callerOf file call = group.caller ∧
        call.position = position := by
  rcases mem_incoming_iff.mp group_mem with ⟨file, call, -, rfl⟩
  simp [mem_positionsOf_iff]

theorem exists_mem_incoming {store : Store} {name : String} {file : LoadedFile} {call : CallSite}
    (targeting : (file, call) ∈ store.callsTargeting name) :
    ∃ group ∈ store.incoming name, group.caller = callerOf file call ∧
      call.position ∈ group.ranges := by
  refine ⟨_, mem_incoming_iff.mpr ⟨file, call, targeting, rfl⟩, rfl, ?_⟩
  exact mem_positionsOf_iff.mpr ⟨(file, call), targeting, rfl, rfl⟩

theorem incoming_perm (store : Store) (name : String) :
    ((store.incoming name).flatMap IncomingCall.places).Perm
      ((store.references name).map SourceLocation.place) := by
  have view : ∀ caller positions, (IncomingCall.mk caller positions).places =
      positions.map (Prod.mk caller.file) := fun _ _ => rfl
  rw [incoming_eq_grouped]
  refine (grouped_flatMap_perm view _).trans (List.Perm.of_eq ?_)
  simp [references, SourceLocation.place, callerOf_eq_itemAt, CallSite.position]

theorem incoming_callers_nodup (store : Store) (name : String) :
    ((store.incoming name).map IncomingCall.caller).Nodup := by
  rw [incoming_eq_grouped, grouped, List.map_map]
  simpa [Function.comp_def] using nodup_eraseDups _

theorem sortedByCaller_incoming (store : Store) (name : String) :
    SortedByCaller store (store.references name) (store.incoming name) where
  perm := (store.incoming_perm name).symm
  distinct := store.incoming_callers_nodup name
  nonempty := by
    intro group group_mem
    rcases mem_incoming_iff.mp group_mem with ⟨file, call, targeting, caller⟩
    have first : call.position ∈ group.ranges :=
      (mem_ranges_of_mem_incoming group_mem).mpr ⟨file, call, targeting, by rw [caller], rfl⟩
    exact List.ne_nil_of_mem first
  caller := by
    intro group group_mem position position_mem
    rcases (mem_ranges_of_mem_incoming group_mem).mp position_mem with
      ⟨file, call, targeting, caller, rfl⟩
    exact ⟨file, (mem_callsTargeting_iff.mp targeting).1, caller.symm⟩
  group := by
    intro location location_mem
    rcases List.mem_map.mp location_mem with ⟨⟨file, call⟩, targeting, rfl⟩
    exact ⟨file, (mem_callsTargeting_iff.mp targeting).1, rfl, exists_mem_incoming targeting⟩

end Store

namespace Session

variable {session prepared : Session} {files : FileSystem} {query : Query}

/-- An item that is prepared is the declaration at the position in a file that is loaded. -/
theorem exists_load_of_prepare {items : List Item} {item : Item}
    (answered : session.prepare files query = (.ok items, prepared)) (item_mem : item ∈ items) :
    ∃ path loaded declaration, session.resolve query.file = .ok path ∧
      session.load files path = (some loaded, prepared) ∧
      declarationAt? loaded.declarations query.position.line = some declaration ∧
      item = Item.ofDeclaration loaded.path declaration := by
  rcases exists_load_of_withFile answered item_mem with ⟨path, loaded, resolved, load, rfl⟩
  rw [Option.mem_toList, Option.map_eq_some_iff] at item_mem
  rcases item_mem with ⟨declaration, here, rfl⟩
  exact ⟨path, loaded, declaration, resolved, load, here, rfl⟩

theorem references_of_load {path : Path} {loaded : LoadedFile} {declaration : Declaration}
    (resolved : session.resolve query.file = .ok path)
    (load : session.load files path = (some loaded, prepared))
    (here : declarationAt? loaded.declarations query.position.line = some declaration) :
    session.references files query =
      (.ok (prepared.store.references declaration.name), prepared) := by
  rw [references, withFile_of_load resolved load]
  simp only [here]

/-- The references at the position of a prepared item, asked for before or after, are the calls
of its callers, sorted by caller. -/
theorem references_sorted_by_caller {items : List Item} {item : Item}
    (answered : session.prepare files query = (.ok items, prepared)) (item_mem : item ∈ items) :
    ∃ locations groups,
      session.references files query = (.ok locations, prepared) ∧
      (∀ later, prepared.references later query = (.ok locations, prepared)) ∧
      prepared.incoming item = .ok groups ∧ SortedByCaller prepared.store locations groups := by
  rcases exists_load_of_prepare answered item_mem with
    ⟨path, loaded, declaration, resolved, load, here, rfl⟩
  have resolved_again : prepared.resolve query.file = .ok path := by
    rw [resolve_of_load load, resolved]
  rcases exists_root_of_resolve resolved_again with ⟨root, opened, -⟩
  refine ⟨prepared.store.references declaration.name, prepared.store.incoming declaration.name,
    references_of_load resolved load here, ?_, ?_, Store.sortedByCaller_incoming _ _⟩
  · intro later
    exact references_of_load resolved_again (load_of_get? (get?_of_load load) later) here
  · simp only [incoming, opened]
    rfl

end Session

/-- `f()` as a statement. -/
def callStatement (line column : Nat) : Node :=
  let span : Span := ⟨0, 0, line, column, line, column + 3⟩
  let name : Node := ⟨"identifier", true, some "function", span, "f", []⟩
  let arguments : Node := ⟨"argument_list", true, some "arguments", span, "()", []⟩
  let call : Node := ⟨"call", true, none, span, "f()", [name, arguments]⟩
  ⟨"expression_statement", true, none, span, "f()", [call]⟩

/-- A function `f` that calls itself on its second line, and a call of it on the third. -/
def recursiveSource : SourceFile :=
  let name : Node := ⟨"identifier", true, some "name", ⟨4, 5, 1, 5, 1, 6⟩, "f", []⟩
  let body : Node := ⟨"block", true, some "body", ⟨13, 16, 2, 5, 2, 8⟩, "f()", [callStatement 2 5]⟩
  let function : Node :=
    ⟨"function_definition", true, none, ⟨0, 16, 1, 1, 2, 8⟩, "def f():\n    f()", [name, body]⟩
  ⟨"def f():\n    f()\nf()".toUTF8,
    ⟨"module", true, none, ⟨0, 20, 1, 1, 3, 4⟩, "def f():\n    f()\nf()",
      [function, callStatement 3 1]⟩⟩

/-- The declaration of that function. -/
def recursiveFunction : Declaration where
  name := "f"
  qualifiedName := "f"
  kind := .function
  span := ⟨0, 16, 1, 1, 2, 8⟩
  parameters := []
  returnType := none
  docstring := none
  isAsync := false
  decorators := []
  className := none

theorem declarationsOf_recursiveSource :
    declarationsOf recursiveSource.tree = [recursiveFunction] := by
  simp only [declarationsOf, declarationsPending, Cursor.ofRoot, recursiveSource, callStatement,
    Cursor.children, Cursor.kind, declaration?, innerClass, List.zipIdx_cons, List.zipIdx_nil,
    List.map_cons, List.map_nil, List.cons_append, List.nil_append, List.append_nil, BEq.rfl,
    String.reduceBEq, Bool.false_eq_true, ↓reduceIte, Option.toList_none,
    Option.toList_eq_singleton_iff]
  rfl

theorem callsOf_recursiveSource :
    callsOf recursiveSource.tree = [⟨"f", 2, 5, []⟩, ⟨"f", 3, 1, []⟩] := by
  simp only [callsOf, Cursor.descendantsOfKind, Cursor.descendantsOfKinds, Cursor.descendants,
    Cursor.walk, Cursor.walkPending, recursiveSource, callStatement, Cursor.ofRoot,
    Cursor.children, List.zipIdx_cons, List.zipIdx_nil, List.map_cons, List.map_nil,
    List.cons_append, List.nil_append, List.append_nil, ↓reduceIte]
  rfl

namespace Session

/-- The file of the recursive function, loaded. -/
def recursiveFile : LoadedFile :=
  LoadedFile.ofSource ⟨"/p/a.py"⟩ recursiveSource

/-- The session that has opened the directory and loaded the file. -/
def atRecursiveFile : Session :=
  holdingOneFile recursiveSource

theorem files_atRecursiveFile : atRecursiveFile.store.files = [recursiveFile] :=
  files_holdingOneFile recursiveSource

theorem load_recursiveFile :
    atOneFile.load (oneFile recursiveSource) ⟨"/p/a.py"⟩ =
      (some recursiveFile, atRecursiveFile) :=
  load_oneFile recursiveSource

theorem prepare_recursiveFile :
    atOneFile.prepare (oneFile recursiveSource) ⟨⟨"a.py"⟩, ⟨1, 5⟩⟩ =
      (.ok [Item.ofDeclaration ⟨"/p/a.py"⟩ recursiveFunction], atRecursiveFile) := by
  rw [prepare, withFile_of_load resolve_atOneFile load_recursiveFile]
  simp only [recursiveFile, LoadedFile.ofSource, declarationsOf_recursiveSource]
  rfl

theorem recursive_references_sorted_by_caller :
    let files := oneFile recursiveSource
    let query : Query := ⟨⟨"a.py"⟩, ⟨1, 5⟩⟩
    let item := Item.ofDeclaration ⟨"/p/a.py"⟩ recursiveFunction
    let session := new.run [⟨files, .openAt ⟨"."⟩⟩]
    session.prepare files query = (.ok [item], atRecursiveFile) ∧
      ∃ locations groups,
        session.references files query = (.ok locations, atRecursiveFile) ∧
        atRecursiveFile.incoming item = .ok groups ∧
        groups.map IncomingCall.caller = [item, Item.topLevel ⟨"/p/a.py"⟩] ∧
        SortedByCaller atRecursiveFile.store locations groups := by
  intro files query item session
  have opened : session = atOneFile := openAt_oneFile recursiveSource
  have answered : session.prepare files query = (.ok [item], atRecursiveFile) := by
    rw [opened]
    exact prepare_recursiveFile
  rcases references_sorted_by_caller answered (List.mem_singleton.mpr rfl) with
    ⟨locations, groups, here, -, callers, sorted⟩
  refine ⟨answered, locations, groups, here, callers, ?_, sorted⟩
  have callers_eq : groups = atRecursiveFile.store.incoming item.name :=
    (Except.ok.inj callers).symm
  rw [callers_eq, Store.incoming, Store.callsTargeting, files_atRecursiveFile]
  simp only [recursiveFile, LoadedFile.ofSource, callsOf_recursiveSource,
    declarationsOf_recursiveSource]
  rfl

end Session

end CodeFacts.Calls
