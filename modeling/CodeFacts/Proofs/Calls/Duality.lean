import CodeFacts.Proofs.Calls.References
import CodeFacts.Proofs.FileSystem.Agreement
import CodeFacts.Proofs.Tree.Preorder

/-!
# Incoming and outgoing calls

Callers are found by the name they call and grouped by the item around each call. Callees are found
by the lines of the caller and grouped by the called text. The two agree on every session that a
run can reach: a call that leads from an item to a target is among the calls that lead to the
target, and the other way round.

The way back rests on the lines of the trees. A declaration answers for the line on which it
starts, so its last line must not come before that one.
-/

namespace CodeFacts

/-- No node of a tree ends on a line before the one on which it starts. -/
def Node.LinesOrdered (tree : Node) : Prop :=
  ∀ cursor, (Cursor.ofRoot tree).Contains cursor → cursor.span.startLine ≤ cursor.span.endLine

/-- All syntax trees in a file system are as parsers give them. -/
def FileSystem.LinesOrdered (files : FileSystem) : Prop :=
  ∀ location source, (location, Entry.file source) ∈ files.entries → source.tree.LinesOrdered

namespace FileSystem

variable {files : FileSystem}

theorem mem_entries_of_entry? {location : Location} {source : SourceFile}
    (found : files.entry? location = some (.file source)) :
    ∃ place, (place, Entry.file source) ∈ files.entries := by
  unfold entry? at found
  split at found
  · simp at found
  · rcases Option.map_eq_some_iff.mp found with ⟨⟨place, entry⟩, first, rfl⟩
    exact ⟨place, List.mem_of_find?_eq_some first⟩

theorem LinesOrdered.of_read (ordered : files.LinesOrdered) {path : Path} {source : SourceFile}
    (read : files.read path = .ok source) : source.tree.LinesOrdered := by
  rcases (files.read_eq_ok_iff path source).mp read with ⟨location, -, found, -⟩
  rcases mem_entries_of_entry? found with ⟨place, entry_mem⟩
  exact ordered place source entry_mem

end FileSystem

namespace Calls

theorem span_of_declaration? {cursor : Cursor} {className : Option String}
    {declaration : Declaration} (declares : declaration? cursor className = some declaration) :
    declaration.span = cursor.span := by
  unfold declaration? at declares
  split at declares
  · rcases Option.map_eq_some_iff.mp declares with ⟨name, -, rfl⟩
    rfl
  · split at declares
    · rcases Option.map_eq_some_iff.mp declares with ⟨name, -, rfl⟩
      rfl
    · contradiction

/-- Every declaration is declared by a node below a pending one. -/
theorem exists_cursor_of_mem_declarationsPending {pending : List (Cursor × Option String)}
    {declaration : Declaration} (declared : declaration ∈ declarationsPending pending) :
    ∃ entry ∈ pending, ∃ cursor className,
      entry.1.Contains cursor ∧ declaration? cursor className = some declaration := by
  fun_induction declarationsPending pending with
  | case1 => contradiction
  | case2 cursor className rest ih =>
      rcases List.mem_append.mp declared with here | below
      · exact ⟨_, List.mem_cons_self, cursor, className, cursor.contains_self,
          Option.mem_toList.mp here⟩
      · rcases ih below with ⟨entry, entry_mem, found, inner, contains, declares⟩
        rcases List.mem_append.mp entry_mem with child_mem | later
        · rcases List.mem_map.mp child_mem with ⟨child, isChild, rfl⟩
          exact ⟨_, List.mem_cons_self, found, inner, contains.of_child isChild, declares⟩
        · exact ⟨entry, List.mem_cons_of_mem _ later, found, inner, contains, declares⟩

theorem lines_of_mem_declarationsOf {tree : Node} (ordered : tree.LinesOrdered)
    {declaration : Declaration} (declared : declaration ∈ declarationsOf tree) :
    declaration.startLine ≤ declaration.endLine := by
  rcases exists_cursor_of_mem_declarationsPending declared with
    ⟨entry, entry_mem, cursor, className, contains, declares⟩
  rw [List.mem_singleton.mp entry_mem] at contains
  rw [Declaration.startLine, Declaration.endLine, span_of_declaration? declares]
  exact ordered cursor contains

theorem latest?_mem {declarations : List Declaration} {declaration : Declaration}
    (latest : latest? declarations = some declaration) : declaration ∈ declarations := by
  induction declarations generalizing declaration with
  | nil => contradiction
  | cons first rest ih =>
      unfold latest? at latest
      split at latest
      · cases latest
        exact List.mem_cons_self
      · rename_i other found
        split at latest
        · cases latest
          exact List.mem_cons_self
        · cases latest
          exact List.mem_cons_of_mem _ (ih found)

/-- The declaration at a line starts there or has the line within its own. -/
theorem declarationAt?_spec {declarations : List Declaration} {line : Nat}
    {declaration : Declaration} (here : declarationAt? declarations line = some declaration) :
    declaration ∈ declarations ∧ declaration.coversLine line = true := by
  unfold declarationAt? at here
  split at here
  · rename_i first found
    cases here
    have starts := List.find?_some found
    exact ⟨List.mem_of_find?_eq_some found, by simp_all [Declaration.coversLine]⟩
  · exact List.mem_filter.mp (latest?_mem here)

theorem lines_of_coversLine {declaration : Declaration} {line : Nat}
    (ordered : declaration.startLine ≤ declaration.endLine)
    (covers : declaration.coversLine line = true) :
    declaration.startLine ≤ line ∧ line ≤ declaration.endLine := by
  simp [Declaration.coversLine, Span.containsLine, Declaration.startLine, Declaration.endLine]
    at covers ordered ⊢
  omega

/-- A caller that is not the top level is the declaration at the line of its call. -/
theorem exists_declarationAt?_of_callerOf {file : LoadedFile} {call : CallSite}
    (declared : (callerOf file call).kind ≠ .module) :
    ∃ declaration, declarationAt? file.declarations call.line = some declaration ∧
      callerOf file call = Item.ofDeclaration file.path declaration := by
  unfold callerOf at declared ⊢
  split
  · rename_i declaration here
    exact ⟨declaration, here, rfl⟩
  · simp_all [Item.topLevel]

namespace Store

variable {store : Store} {file : LoadedFile} {item : Item}

theorem name_of_mem_declarationsNamed {name : String} {preferred : Path}
    (item_mem : item ∈ store.declarationsNamed name preferred) : item.name = name := by
  simp only [declarationsNamed, List.mem_flatMap, List.mem_map, List.mem_filter, beq_iff_eq]
    at item_mem
  rcases item_mem with ⟨_, -, declaration, ⟨-, named⟩, rfl⟩
  exact named

theorem name_of_targetOf {callee : String} {target : Item}
    (leads : store.targetOf file callee = some target) :
    target.name = CallSite.lastSegment callee :=
  name_of_mem_declarationsNamed (List.mem_of_head? leads)

theorem mem_callsWithin_iff {call : CallSite} :
    call ∈ callsWithin file item ↔
      call ∈ file.calls ∧ item.line ≤ call.line ∧ call.line ≤ item.lastLine := by
  simp [callsWithin]

/-- A group of outgoing calls is made of calls of one text within the item. -/
theorem exists_call_of_mem_outgoing {group : OutgoingCall}
    (group_mem : group ∈ store.outgoing file item) {position : Position}
    (position_mem : position ∈ group.ranges) :
    group.target = store.targetOf file group.callee ∧
      ∃ call ∈ file.calls, call.callee = group.callee ∧ call.position = position := by
  rw [outgoing_eq_grouped] at group_mem
  rcases mem_grouped_iff.mp group_mem with ⟨first, -, rfl⟩
  rcases mem_positionsOf_iff.mp position_mem with ⟨call, call_mem, callee, place⟩
  exact ⟨rfl, call, (mem_callsWithin_iff.mp call_mem).1, callee, place⟩

theorem exists_mem_outgoing (store : Store) {call : CallSite}
    (within : call ∈ callsWithin file item) :
    ∃ group ∈ store.outgoing file item, group.callee = call.callee ∧
      call.position ∈ group.ranges := by
  rw [outgoing_eq_grouped]
  refine ⟨_, mem_grouped_iff.mpr ⟨call, within, rfl⟩, rfl, ?_⟩
  exact mem_positionsOf_iff.mpr ⟨call, within, rfl, rfl⟩

/-- A call that leads to a target is among the calls of the target. -/
theorem incoming_of_outgoing (file_mem : file ∈ store.files) {group : OutgoingCall}
    (group_mem : group ∈ store.outgoing file item) {target : Item}
    (leads : group.target = some target) {position : Position}
    (position_mem : position ∈ group.ranges) :
    ∃ caller ∈ store.incoming target.name, caller.caller.file = file.path ∧
      position ∈ caller.ranges := by
  rcases exists_call_of_mem_outgoing group_mem position_mem with
    ⟨target_eq, call, call_mem, callee, rfl⟩
  have named : call.bareName = target.name := by
    rw [CallSite.bareName, callee, name_of_targetOf (target_eq.symm.trans leads)]
  rcases exists_mem_incoming (mem_callsTargeting_iff.mpr ⟨file_mem, call_mem, named⟩) with
    ⟨caller, caller_mem, caller_eq, here⟩
  refine ⟨caller, caller_mem, ?_, here⟩
  rw [caller_eq, callerOf_eq_itemAt, itemAt_file]

/-- A call that a declaration makes is among the calls within the declaration. -/
theorem outgoing_of_incoming {name : String} {caller : IncomingCall}
    (caller_mem : caller ∈ store.incoming name) (declared : caller.caller.kind ≠ .module)
    (ordered : ∀ file ∈ store.files, ∀ declaration ∈ file.declarations,
      declaration.startLine ≤ declaration.endLine)
    {position : Position} (position_mem : position ∈ caller.ranges) :
    ∃ file ∈ store.files, caller.caller.file = file.path ∧
      ∃ group ∈ store.outgoing file caller.caller, position ∈ group.ranges ∧
        CallSite.lastSegment group.callee = name := by
  rcases (mem_ranges_of_mem_incoming caller_mem).mp position_mem with
    ⟨file, call, targeting, caller_eq, rfl⟩
  rcases mem_callsTargeting_iff.mp targeting with ⟨file_mem, call_mem, named⟩
  rw [← caller_eq] at declared ⊢
  rcases exists_declarationAt?_of_callerOf declared with ⟨declaration, here, item_eq⟩
  rcases declarationAt?_spec here with ⟨declaration_mem, covers⟩
  -- A declaration that starts on the line of the call has it within its lines only if they are
  -- in order.
  have lines := lines_of_coversLine (ordered file file_mem declaration declaration_mem) covers
  have within : call ∈ callsWithin file (callerOf file call) := by
    rw [item_eq]
    exact mem_callsWithin_iff.mpr ⟨call_mem, lines⟩
  rcases store.exists_mem_outgoing within with ⟨group, group_mem, callee, here⟩
  refine ⟨file, file_mem, by rw [item_eq]; rfl, group, group_mem, here, ?_⟩
  rw [callee]
  exact named

end Store

namespace Session

/-- The declarations that a session holds end on no line before their first. -/
def LinesOrdered (session : Session) : Prop :=
  ∀ file ∈ session.store.files, ∀ declaration ∈ file.declarations,
    declaration.startLine ≤ declaration.endLine

theorem LinesOrdered.load {session : Session} (ordered : session.LinesOrdered)
    {files : FileSystem} (parsed : files.LinesOrdered) (path : Path) :
    (session.load files path).2.LinesOrdered := by
  rcases session.load_cases files path with ⟨loaded, -, load⟩ | ⟨-, ⟨fault, -, load⟩ |
    ⟨source, read, load⟩⟩
  · rw [load]
    exact ordered
  · rw [load]
    exact ordered
  · rw [load]
    intro file file_mem declaration declaration_mem
    rcases Store.mem_of_mem_add file_mem with new | old
    · rw [new] at declaration_mem
      exact lines_of_mem_declarationsOf (parsed.of_read read) declaration_mem
    · exact ordered file old declaration declaration_mem

theorem LinesOrdered.next {session : Session} (ordered : session.LinesOrdered) {step : Step}
    (parsed : step.files.LinesOrdered) : (session.next step).LinesOrdered := by
  apply next_induction LinesOrdered step ordered
  · intro root
    rw [LinesOrdered, openAt_store]
    exact ordered
  · intro _
    simp [LinesOrdered, shutdown]
  · intro file _
    cases resolved : session.resolve file with
    | error failure => simpa [touch, resolved] using ordered
    | ok path =>
        rw [touch_of_resolve resolved]
        exact ordered.load parsed path

theorem linesOrdered_run {steps : List Step} (parsed : ∀ step ∈ steps, step.files.LinesOrdered) :
    (new.run steps).LinesOrdered :=
  run_induction LinesOrdered (by simp [LinesOrdered, new])
    fun step step_mem _ holds => holds.next (parsed step step_mem)

/-- A path that is loaded resolves to itself. -/
theorem WellFormed.resolve_path {session : Session} (wellFormed : session.WellFormed)
    {file : LoadedFile} (file_mem : file ∈ session.store.files) {root : Path}
    (opened : session.root = some root) : session.resolve file.path = .ok file.path := by
  have normal := wellFormed.store.normal file_mem
  simp only [resolve, opened, Path.join_of_isAbsolute normal.absolute, normal.normalized]

theorem WellFormed.load_path {session : Session} (wellFormed : session.WellFormed)
    {file : LoadedFile} (file_mem : file ∈ session.store.files) (files : FileSystem) :
    session.load files file.path = (some file, session) := by
  have normal := wellFormed.store.normal file_mem
  exact load_of_get? ((wellFormed.store.get?_eq_some_iff normal).mpr ⟨file_mem, rfl⟩) files

theorem WellFormed.of_load {session after : Session} (wellFormed : session.WellFormed)
    {files : FileSystem} {file path : Path} {loaded : Option LoadedFile}
    (resolved : session.resolve file = .ok path)
    (load : session.load files path = (loaded, after)) : after.WellFormed := by
  have kept := wellFormed.load (wellFormed.isNormal_of_resolve resolved) files
  rwa [load] at kept

/-- What is loaded is one of the files of the store afterwards, under its own path. -/
theorem WellFormed.mem_files_of_load {session after : Session} (wellFormed : session.WellFormed)
    {files : FileSystem} {file path : Path} {loaded : LoadedFile}
    (resolved : session.resolve file = .ok path)
    (load : session.load files path = (some loaded, after)) :
    loaded ∈ after.store.files ∧ loaded.path = path :=
  ((wellFormed.of_load resolved load).store.get?_eq_some_iff
    (wellFormed.isNormal_of_resolve resolved)).mp (get?_of_load load)

/-- In every session that a run reaches, each call that leads from an item to a target is one of
the target's incoming calls, and each incoming call that a declaration makes is one of the
declaration's outgoing calls. -/
theorem incoming_dual_outgoing (steps : List Step)
    (parsed : ∀ step ∈ steps, step.files.LinesOrdered) (files : FileSystem) (item : Item) :
    (∀ groups after, (new.run steps).outgoing files item = (.ok groups, after) →
      ∀ group ∈ groups, ∀ target, group.target = some target → ∀ position ∈ group.ranges,
        ∃ path callers, (new.run steps).resolve item.file = .ok path ∧
          after.incoming target = .ok callers ∧
          ∃ caller ∈ callers, caller.caller.file = path ∧ position ∈ caller.ranges) ∧
      ∀ callers, (new.run steps).incoming item = .ok callers →
        ∀ caller ∈ callers, caller.caller.kind ≠ .module → ∀ position ∈ caller.ranges,
          ∃ groups after, (new.run steps).outgoing files caller.caller = (.ok groups, after) ∧
            ∃ group ∈ groups, position ∈ group.ranges ∧
              CallSite.lastSegment group.callee = item.name := by
  have wellFormed : (new.run steps).WellFormed := wellFormed_new.run steps
  have ordered : (new.run steps).LinesOrdered := linesOrdered_run parsed
  constructor
  · intro groups after answered group group_mem target leads position position_mem
    rcases exists_load_of_withFile answered group_mem with ⟨path, loaded, resolved, load, rfl⟩
    rcases wellFormed.mem_files_of_load resolved load with ⟨loaded_mem, rfl⟩
    rcases exists_root_of_resolve ((resolve_of_load load item.file).trans resolved) with
      ⟨root, opened, -⟩
    exact ⟨loaded.path, _, resolved, by simp only [incoming, opened],
      Store.incoming_of_outgoing loaded_mem group_mem leads position_mem⟩
  · intro callers answered caller caller_mem declared position position_mem
    cases opened : (new.run steps).root with
    | none => simp [incoming, opened] at answered
    | some root =>
        simp only [incoming, opened, Except.ok.injEq] at answered
        subst answered
        rcases Store.outgoing_of_incoming caller_mem declared ordered position_mem with
          ⟨file, file_mem, same, group, group_mem, here, named⟩
        have resolved : (new.run steps).resolve caller.caller.file = .ok file.path := by
          rw [same]
          exact wellFormed.resolve_path file_mem opened
        exact ⟨_, _, withFile_of_load resolved (wellFormed.load_path file_mem files) _,
          group, group_mem, here, named⟩

theorem linesOrdered_recursiveSource : recursiveSource.tree.LinesOrdered := by
  have all : ((Cursor.ofRoot recursiveSource.tree).descendants.all fun cursor =>
      decide (cursor.span.startLine ≤ cursor.span.endLine)) = true := by decide +kernel
  intro cursor contains
  have ordered := List.all_eq_true.mp all cursor ((Cursor.mem_descendants_iff _ _).mpr contains)
  simpa using ordered

theorem linesOrdered_oneFile {source : SourceFile} (ordered : source.tree.LinesOrdered) :
    (oneFile source).LinesOrdered := by
  intro location other entry_mem
  simp only [oneFile, List.mem_cons, Prod.mk.injEq, Entry.file.injEq, reduceCtorEq, and_false,
    false_or, List.not_mem_nil, or_false] at entry_mem
  rw [entry_mem.2]
  exact ordered

/-- The directory is opened and the file of the recursive function is loaded. -/
def recursiveSteps : List Step :=
  [⟨oneFile recursiveSource, .openAt ⟨"."⟩⟩, ⟨oneFile recursiveSource, .symbols ⟨"a.py"⟩⟩]

theorem run_recursiveSteps : new.run recursiveSteps = atRecursiveFile := by
  change (new.next _).next _ = _
  rw [openAt_oneFile, next_of_file? rfl, touch_of_resolve resolve_atOneFile, load_recursiveFile]

theorem recursive_calls_dual :
    let item := Item.ofDeclaration ⟨"/p/a.py"⟩ recursiveFunction
    let files := oneFile recursiveSource
    (∀ step ∈ recursiveSteps, step.files.LinesOrdered) ∧
      (new.run recursiveSteps).outgoing files item =
        (.ok [⟨"f", some item, [⟨2, 5⟩]⟩], atRecursiveFile) ∧
      (∃ callers, atRecursiveFile.incoming item = .ok callers ∧
        ∃ caller ∈ callers, caller.caller.file = ⟨"/p/a.py"⟩ ∧ ⟨2, 5⟩ ∈ caller.ranges) ∧
      (new.run recursiveSteps).incoming item =
        .ok [⟨item, [⟨2, 5⟩]⟩, ⟨Item.topLevel ⟨"/p/a.py"⟩, [⟨3, 1⟩]⟩] ∧
      ∃ groups after, (new.run recursiveSteps).outgoing files item = (.ok groups, after) ∧
        ∃ group ∈ groups, ⟨2, 5⟩ ∈ group.ranges ∧ CallSite.lastSegment group.callee = "f" := by
  intro item files
  have parsed : ∀ step ∈ recursiveSteps, step.files.LinesOrdered := by
    simp [recursiveSteps, linesOrdered_oneFile linesOrdered_recursiveSource]
  have resolved : atRecursiveFile.resolve item.file = .ok ⟨"/p/a.py"⟩ := by
    change atOneFile.resolve ⟨"/p/a.py"⟩ = _
    decide
  have outgoing : (new.run recursiveSteps).outgoing files item =
      (.ok [⟨"f", some item, [⟨2, 5⟩]⟩], atRecursiveFile) := by
    have known := load_of_get? (get?_of_load load_recursiveFile) files
    rw [run_recursiveSteps, Session.outgoing, withFile_of_load resolved known]
    simp only [Store.outgoing, Store.declarationsNamed, files_atRecursiveFile, recursiveFile,
      LoadedFile.ofSource, callsOf_recursiveSource, declarationsOf_recursiveSource]
    rfl
  have incoming : (new.run recursiveSteps).incoming item =
      .ok [⟨item, [⟨2, 5⟩]⟩, ⟨Item.topLevel ⟨"/p/a.py"⟩, [⟨3, 1⟩]⟩] := by
    rw [run_recursiveSteps]
    change Except.ok (atRecursiveFile.store.incoming item.name) = _
    simp only [Store.incoming, Store.callsTargeting, files_atRecursiveFile, recursiveFile,
      LoadedFile.ofSource, callsOf_recursiveSource, declarationsOf_recursiveSource]
    rfl
  rcases incoming_dual_outgoing recursiveSteps parsed files item with ⟨forth, back⟩
  refine ⟨parsed, outgoing, ?_, incoming, ?_⟩
  · rcases forth _ _ outgoing _ List.mem_cons_self item rfl ⟨2, 5⟩ List.mem_cons_self with
      ⟨path, callers, found, answered, caller, caller_mem, same, here⟩
    rw [run_recursiveSteps] at found
    cases resolved.symm.trans found
    exact ⟨callers, answered, caller, caller_mem, same, here⟩
  · exact back _ incoming _ List.mem_cons_self (by decide) ⟨2, 5⟩ List.mem_cons_self

end Session

end Calls

end CodeFacts
