import CodeFacts.Proofs.Calls.Duality

/-!
# What called names lead to

The calls within an item are grouped by the text of what they call, and each group leads to one
declaration at most. Of all declarations with the called name those of the item's own file come
first, and then those of the other loaded files in the order of their paths. So a group leads to the
first such declaration of its own file, or else of the least file that has one.
-/

namespace CodeFacts.Calls

namespace LoadedFile

/-- A file has a declaration with a given name. -/
def Declares (file : LoadedFile) (name : String) : Prop :=
  ∃ declaration ∈ file.declarations, declaration.name = name

/-- The declarations of a file with a given name, as items. -/
def itemsNamed (file : LoadedFile) (name : String) : List Item :=
  (file.declarations.filter fun declaration => declaration.name == name).map
    (Item.ofDeclaration file.path)

theorem itemsNamed_eq_nil_iff {file : LoadedFile} {name : String} :
    file.itemsNamed name = [] ↔ ¬file.Declares name := by
  simp [itemsNamed, Declares]

theorem head?_itemsNamed (file : LoadedFile) (name : String) :
    (file.itemsNamed name).head? =
      (file.declarations.find? fun declaration => declaration.name == name).map
        (Item.ofDeclaration file.path) := by
  rw [itemsNamed, List.head?_map, List.head?_filter]

end LoadedFile

namespace Store

variable {store : Store} {file : LoadedFile} {name : String}

/-- The declarations with a name are those of the preferred file, followed by those of the
others. -/
theorem declarationsNamed_eq (file_mem : file ∈ store.files) (name : String) :
    store.declarationsNamed name file.path =
      file.itemsNamed name ++
        (store.files.filter fun other => decide (other ≠ file)).flatMap fun other =>
          other.itemsNamed name := by
  have distinct := store.increasing_files.nodup_keys LoadedFile.isKey_location
  have preferred : ∀ other ∈ store.files, other.path.same file.path = decide (other = file) := by
    intro other other_mem
    rw [Bool.eq_iff_iff, decide_eq_true_iff]
    constructor
    · intro same
      exact List.inj_on_of_nodup_map distinct other_mem file_mem (eq_of_beq same)
    · rintro rfl
      simp [Path.same]
  have own : store.files.filter (fun other => other.path.same file.path) = [file] := by
    have once : store.files.count file = 1 := List.count_eq_one_of_mem distinct.of_map file_mem
    rw [List.filter_congr preferred]
    exact (List.filter_beq file).trans (by rw [once, List.replicate_one])
  have others : store.files.filter (fun other => !other.path.same file.path) =
      store.files.filter fun other => decide (other ≠ file) := by
    apply List.filter_congr
    intro other other_mem
    simp [preferred other other_mem]
  rw [declarationsNamed, own, others, List.flatMap_append, List.flatMap_singleton]
  rfl

theorem mem_declarationsNamed_iff {preferred : Path} {item : Item} :
    item ∈ store.declarationsNamed name preferred ↔
      ∃ file ∈ store.files, item ∈ file.itemsNamed name := by
  simp only [declarationsNamed, List.mem_flatMap, List.mem_append, List.mem_filter,
    ← and_or_left, Bool.not_eq_true', Bool.eq_false_or_eq_true, and_true]
  rfl

theorem declarationsNamed_eq_nil_iff {preferred : Path} :
    store.declarationsNamed name preferred = [] ↔ ∀ file ∈ store.files, ¬file.Declares name := by
  simp only [List.eq_nil_iff_forall_not_mem, mem_declarationsNamed_iff,
    ← LoadedFile.itemsNamed_eq_nil_iff]
  grind

/-- Of files in order, the least one that declares a name has the first declaration. -/
theorem head?_flatMap_itemsNamed {files : List LoadedFile}
    (ordered : OrderedList.Increasing LoadedFile.compare files) (file_mem : file ∈ files)
    (declares : file.Declares name)
    (least : ∀ other ∈ files, other.Declares name → file.path.compare other.path ≠ .gt) :
    (files.flatMap fun other => other.itemsNamed name).head? = (file.itemsNamed name).head? := by
  rcases List.append_of_mem file_mem with ⟨before, after, rfl⟩
  have nothing : (before.flatMap fun other => other.itemsNamed name) = [] := by
    apply List.flatMap_eq_nil_iff.mpr
    intro other other_mem
    apply LoadedFile.itemsNamed_eq_nil_iff.mpr
    intro also
    have less := (List.pairwise_append.mp ordered).2.2 other other_mem file List.mem_cons_self
    exact least other (List.mem_append_left _ other_mem) also (Std.OrientedCmp.gt_of_lt less)
  have something : file.itemsNamed name ≠ [] := by
    simpa [LoadedFile.itemsNamed_eq_nil_iff] using declares
  rw [List.flatMap_append, nothing, List.nil_append, List.flatMap_cons,
    List.head?_append_of_ne_nil _ something]

end Store

/-- A name leads from a file to the first declaration of the file that has it, else to the first of
the least file that has one, and nowhere if there is none. -/
structure ResolvesByPreference (store : Store) (own : LoadedFile) (name : String)
    (target : Option Item) : Prop where
  present : target.isSome = true ↔ ∃ file ∈ store.files, file.Declares name
  inside : ∀ declaration,
    own.declarations.find? (fun found => found.name == name) = some declaration →
      target = some (Item.ofDeclaration own.path declaration)
  elsewhere : ¬own.Declares name → ∀ file ∈ store.files,
    (∀ other ∈ store.files, other.Declares name → file.path.compare other.path ≠ .gt) →
      ∀ declaration,
        file.declarations.find? (fun found => found.name == name) = some declaration →
          target = some (Item.ofDeclaration file.path declaration)

theorem Store.resolvesByPreference {store : Store} {own : LoadedFile}
    (own_mem : own ∈ store.files) (name : String) :
    ResolvesByPreference store own name (store.declarationsNamed name own.path).head? where
  present := by
    rw [List.isSome_head?, ne_eq, declarationsNamed_eq_nil_iff]
    simp
  inside := by
    intro declaration first
    rw [declarationsNamed_eq own_mem, List.head?_append, LoadedFile.head?_itemsNamed,
      first]
    rfl
  elsewhere := by
    intro absent file file_mem least declaration first
    have declares : file.Declares name :=
      ⟨declaration, List.mem_of_find?_eq_some first, by simpa using List.find?_some first⟩
    have different : file ≠ own := by
      rintro rfl
      exact absent declares
    rw [declarationsNamed_eq own_mem, LoadedFile.itemsNamed_eq_nil_iff.mpr absent,
      List.nil_append, head?_flatMap_itemsNamed (store.increasing_files.filter _)
        (List.mem_filter.mpr ⟨file_mem, by simpa using different⟩) declares
        fun other other_mem => least other (List.mem_of_mem_filter other_mem),
      LoadedFile.head?_itemsNamed, first]
    rfl

/-- The calls of a group, each with the text of what it calls. -/
def OutgoingCall.calls (group : OutgoingCall) : List (String × Position) :=
  group.ranges.map (Prod.mk group.callee)

/-- Groups take up calls by the text of what they call: the texts differ and stand in the order of
their first calls, each with the positions of its calls in order, and no call is lost or
repeated. -/
structure GroupedByCallee (calls : List CallSite) (groups : List OutgoingCall) : Prop where
  distinct : (groups.map OutgoingCall.callee).Nodup
  firsts : groups.map OutgoingCall.callee = (calls.map CallSite.callee).eraseDups
  ranges : ∀ group ∈ groups, group.ranges =
    (calls.filter fun call => decide (call.callee = group.callee)).map CallSite.position
  perm : (groups.flatMap OutgoingCall.calls).Perm
    (calls.map fun call => (call.callee, call.position))

theorem Store.groupedByCallee_outgoing (store : Store) (file : LoadedFile) (item : Item) :
    GroupedByCallee (callsWithin file item) (store.outgoing file item) := by
  rw [outgoing_eq_grouped]
  have callees : (grouped CallSite.callee CallSite.position
      (fun callee => OutgoingCall.mk callee (store.targetOf file callee))
      (callsWithin file item)).map OutgoingCall.callee =
        ((callsWithin file item).map CallSite.callee).eraseDups := by
    rw [grouped, List.map_map]
    exact List.map_id _
  refine ⟨?_, callees, ?_, ?_⟩
  · rw [callees]
    exact nodup_eraseDups _
  · intro group group_mem
    rcases mem_grouped_iff.mp group_mem with ⟨call, -, rfl⟩
    rfl
  · have view : ∀ callee positions,
        (OutgoingCall.mk callee (store.targetOf file callee) positions).calls =
          positions.map (Prod.mk callee) := fun _ _ => rfl
    exact grouped_flatMap_perm view _

namespace Session

/-- What a run loads is what some source gives at the path. -/
theorem exists_source_of_load {steps : List Step} {files : FileSystem} {file path : Path}
    {loaded : LoadedFile} {after : Session} (resolved : (new.run steps).resolve file = .ok path)
    (load : (new.run steps).load files path = (some loaded, after)) :
    ∃ source, loaded = LoadedFile.ofSource path source := by
  have reached : after = new.run (steps ++ [⟨files, .symbols file⟩]) := by
    rw [run_concat, next_of_file? rfl, touch_of_resolve resolved, load]
  have known := get?_of_load load
  rw [reached, get?_run] at known
  rcases Option.map_eq_some_iff.mp known with ⟨source, -, rfl⟩
  exact ⟨source, rfl⟩

/-- In every session that a run reaches, the outgoing calls of an item whose file can be loaded are
the calls on its lines, grouped by what they call, and each group leads to the declaration that is
preferred. Without a last line an item has the hundred lines after its first. -/
theorem outgoing_groups_calls_on_lines (steps : List Step) (files : FileSystem)
    (item : Item) {path : Path} {loaded : LoadedFile} {after : Session}
    (resolved : (new.run steps).resolve item.file = .ok path)
    (load : (new.run steps).load files path = (some loaded, after)) :
    ∃ source groups, loaded = LoadedFile.ofSource path source ∧
      (new.run steps).outgoing files item = (.ok groups, after) ∧
      GroupedByCallee
        ((callsOf source.tree).filter fun call =>
          decide (item.line ≤ call.line ∧ call.line ≤ item.endLine.getD (item.line + 100)))
        groups ∧
      ∀ group ∈ groups,
        ResolvesByPreference after.store loaded (CallSite.lastSegment group.callee)
          group.target := by
  have wellFormed : (new.run steps).WellFormed := wellFormed_new.run steps
  rcases exists_source_of_load resolved load with ⟨source, rfl⟩
  rcases wellFormed.mem_files_of_load resolved load with ⟨loaded_mem, -⟩
  refine ⟨source, _, rfl, withFile_of_load resolved load _, ?_, ?_⟩
  · simp only [Bool.decide_and]
    exact after.store.groupedByCallee_outgoing (LoadedFile.ofSource path source) item
  · intro group group_mem
    rw [Store.outgoing_eq_grouped] at group_mem
    rcases mem_grouped_iff.mp group_mem with ⟨call, -, rfl⟩
    exact Store.resolvesByPreference loaded_mem _

/-- The calls of the top level are found on its first hundred lines, those in the function too. -/
theorem topLevel_outgoing_groups_calls_on_lines :
    let item := Item.topLevel ⟨"/p/a.py"⟩
    let files := oneFile recursiveSource
    let groups : List OutgoingCall :=
      [⟨"f", some (Item.ofDeclaration ⟨"/p/a.py"⟩ recursiveFunction), [⟨2, 5⟩, ⟨3, 1⟩]⟩]
    (new.run recursiveSteps).resolve item.file = .ok ⟨"/p/a.py"⟩ ∧
      (new.run recursiveSteps).load files ⟨"/p/a.py"⟩ = (some recursiveFile, atRecursiveFile) ∧
      (new.run recursiveSteps).outgoing files item = (.ok groups, atRecursiveFile) ∧
      GroupedByCallee
        ((callsOf recursiveSource.tree).filter fun call =>
          decide (item.line ≤ call.line ∧ call.line ≤ item.endLine.getD (item.line + 100)))
        groups ∧
      ∀ group ∈ groups,
        ResolvesByPreference atRecursiveFile.store recursiveFile
          (CallSite.lastSegment group.callee) group.target := by
  intro item files groups
  have resolved : (new.run recursiveSteps).resolve item.file = .ok ⟨"/p/a.py"⟩ := by
    rw [run_recursiveSteps]
    change atOneFile.resolve ⟨"/p/a.py"⟩ = _
    decide
  have load : (new.run recursiveSteps).load files ⟨"/p/a.py"⟩ =
      (some recursiveFile, atRecursiveFile) := by
    rw [run_recursiveSteps]
    exact load_of_get? (get?_of_load load_recursiveFile) files
  have answered : (new.run recursiveSteps).outgoing files item = (.ok groups, atRecursiveFile) := by
    rw [Session.outgoing, withFile_of_load resolved load]
    simp only [Store.outgoing, Store.declarationsNamed, files_atRecursiveFile, recursiveFile,
      LoadedFile.ofSource, callsOf_recursiveSource, declarationsOf_recursiveSource]
    rfl
  rcases outgoing_groups_calls_on_lines recursiveSteps files item resolved load with
    ⟨source, found, same, found_answered, grouped, preferred⟩
  obtain rfl : found = groups := by
    simpa using found_answered.symm.trans answered
  have calls : callsOf recursiveSource.tree = callsOf source.tree := congrArg LoadedFile.calls same
  rw [← calls] at grouped
  exact ⟨resolved, load, answered, grouped, preferred⟩

end Session

end CodeFacts.Calls
