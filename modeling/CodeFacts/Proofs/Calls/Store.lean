import CodeFacts.Calls.Store
import CodeFacts.Proofs.Path.Map
import CodeFacts.Proofs.Path.Normalize

/-!
# What a store holds

A path is looked up by its components, so all spellings of a path lead to one file. The known files
are in the order of their paths because the maps are.

A store may hold calls of a file and no declarations of it. In a store that is `FilledFrom` a map of
sources this does not happen: text, declarations and calls are kept for the same paths and taken from
the same source. A store that is filled so stays filled so when a file is added that is not known.
-/

namespace CodeFacts.Calls

namespace LoadedFile

/-- The place for which a loaded file stands. -/
def location (file : LoadedFile) : List Component :=
  file.path.components

/-- The order of loaded files is that of their paths. -/
def compare (first second : LoadedFile) : Ordering :=
  first.path.compare second.path

theorem isKey_location : OrderedList.IsKey LoadedFile.compare LoadedFile.location :=
  fun first second => Path.isKey_components first.path second.path

end LoadedFile

namespace Store

variable {store : Store}

@[simp]
theorem get?_empty (path : Path) : empty.get? path = none :=
  rfl

@[simp]
theorem files_empty : empty.files = [] :=
  rfl

theorem get?_eq_some_iff {path : Path} {file : LoadedFile} :
    store.get? path = some file ↔
      file.path = path ∧ store.declarations.get? path = some file.declarations ∧
        store.calls.get? path = some file.calls := by
  rcases file with ⟨other, declarations, calls⟩
  unfold get?
  cases store.declarations.get? path <;> cases store.calls.get? path <;> simp [eq_comm]

/-- All spellings of a path lead to the same file, under the path that is asked for. -/
theorem get?_congr (store : Store) {first second : Path} (same : first.same second = true) :
    store.get? second = (store.get? first).map fun file => { file with path := second } := by
  unfold get?
  rw [store.declarations.get?_congr same, store.calls.get?_congr same]
  cases store.declarations.get? second <;> cases store.calls.get? second <;> rfl

theorem get?_eq_none_congr (store : Store) {first second : Path}
    (same : first.same second = true) :
    store.get? first = none ↔ store.get? second = none := by
  rw [store.get?_congr same, Option.map_eq_none_iff]

theorem mem_files_iff {file : LoadedFile} :
    file ∈ store.files ↔ file.path ∈ store.calls.keys ∧ store.get? file.path = some file := by
  rw [files, List.mem_filterMap]
  constructor
  · rintro ⟨key, key_mem, found⟩
    obtain rfl := (get?_eq_some_iff.mp found).1
    exact ⟨key_mem, found⟩
  · rintro ⟨key_mem, found⟩
    exact ⟨file.path, key_mem, found⟩

/-- The known files are in the order of their paths. -/
theorem increasing_files (store : Store) :
    OrderedList.Increasing LoadedFile.compare store.files := by
  refine store.calls.increasing_keys.filterMap store.get? ?_
  intro first second less one one_found other other_found
  rw [LoadedFile.compare, (get?_eq_some_iff.mp one_found).1, (get?_eq_some_iff.mp other_found).1]
  exact less

theorem exists_of_get? {path : Path} {loaded : LoadedFile} (found : store.get? path = some loaded) :
    ∃ file ∈ store.files, file.path.same path = true ∧ loaded = { file with path := path } := by
  rcases PathMap.get?_eq_some_iff.mp (get?_eq_some_iff.mp found).2.2 with ⟨key, entry_mem, same⟩
  have back : path.same key = true := beq_iff_eq.mpr (eq_of_beq same).symm
  have found_too := store.get?_congr back
  rw [found, Option.map_some] at found_too
  refine ⟨{ loaded with path := key }, mem_files_iff.mpr ⟨?_, found_too⟩, same, ?_⟩
  · exact List.mem_map.mpr ⟨_, entry_mem, rfl⟩
  · rw [← (get?_eq_some_iff.mp found).1]

theorem get?_eq_none_iff (path : Path) :
    store.get? path = none ↔ path.components ∉ store.files.map LoadedFile.location := by
  constructor
  · intro unknown path_mem
    rcases List.mem_map.mp path_mem with ⟨file, file_mem, location⟩
    have same : file.path.same path = true := beq_iff_eq.mpr location
    rw [← store.get?_eq_none_congr same, (mem_files_iff.mp file_mem).2] at unknown
    contradiction
  · intro absent
    cases found : store.get? path with
    | none => rfl
    | some loaded =>
        rcases exists_of_get? found with ⟨file, file_mem, same, -⟩
        exact absurd (List.mem_map.mpr ⟨file, file_mem, eq_of_beq same⟩) absent

/-- The store in which everything that is read of a file is stored under a path. -/
def add (store : Store) (path : Path) (source : SourceFile) : Store where
  contents := store.contents.insert path (Text.lossyText source.bytes)
  declarations := store.declarations.insert path (declarationsOf source.tree)
  calls := store.calls.insert path (callsOf source.tree)

/-- What is read of a file is found under all spellings of its path, and nothing else changes. -/
theorem get?_add (store : Store) (path : Path) (source : SourceFile) (wanted : Path) :
    (store.add path source).get? wanted =
      if path.same wanted then some (LoadedFile.ofSource wanted source)
      else store.get? wanted := by
  unfold get? add
  rw [PathMap.get?_insert, PathMap.get?_insert]
  cases path.same wanted <;> rfl

theorem insert_of_fresh {path : Path} (fresh : store.get? path = none) (source : SourceFile) :
    store.insert path (Text.lossyText source.bytes) (declarationsOf source.tree)
        (callsOf source.tree) =
      (LoadedFile.ofSource path source, store.add path source) := by
  have found : (store.add path source).get? path = some (LoadedFile.ofSource path source) := by
    simp [get?_add, Path.same]
  rw [insert, fresh]
  change (((store.add path source).get? path).getD _, store.add path source) = _
  rw [found]
  rfl

theorem mem_of_mem_add {path : Path} {source : SourceFile} {file : LoadedFile}
    (file_mem : file ∈ (store.add path source).files) :
    file = LoadedFile.ofSource file.path source ∨ file ∈ store.files := by
  rcases mem_files_iff.mp file_mem with ⟨key_mem, found⟩
  rw [get?_add] at found
  cases same : path.same file.path with
  | true =>
      rw [same, if_pos rfl] at found
      exact Or.inl (Option.some.inj found).symm
  | false =>
      rw [same, if_neg Bool.false_ne_true] at found
      refine Or.inr (mem_files_iff.mpr ⟨?_, found⟩)
      rcases List.mem_map.mp key_mem with ⟨entry, entry_mem, key_eq⟩
      rcases store.calls.exists_entries_insert path (callsOf source.tree) with
        ⟨key, key_same, entries⟩
      change entry ∈ (store.calls.insert path (callsOf source.tree)).entries at entry_mem
      rw [entries] at entry_mem
      rcases OrderedList.mem_of_mem_insertOver entry_mem with rfl | old
      · rw [← key_eq, Path.same, eq_of_beq key_same, beq_self_eq_true] at same
        contradiction
      · exact List.mem_map.mpr ⟨entry, old, key_eq⟩

/-- All three maps of a store are filled from the same sources. -/
structure FilledFrom (store : Store) (sources : PathMap SourceFile) : Prop where
  contents : store.contents = sources.mapValues fun source => Text.lossyText source.bytes
  declarations : store.declarations = sources.mapValues fun source => declarationsOf source.tree
  calls : store.calls = sources.mapValues fun source => callsOf source.tree

theorem filledFrom_empty : empty.FilledFrom PathMap.empty :=
  ⟨rfl, rfl, rfl⟩

namespace FilledFrom

variable {sources : PathMap SourceFile} (filled : store.FilledFrom sources)

include filled

theorem get?_eq (path : Path) :
    store.get? path = (sources.get? path).map (LoadedFile.ofSource path) := by
  unfold Store.get?
  rw [filled.declarations, filled.calls, PathMap.get?_mapValues, PathMap.get?_mapValues]
  cases sources.get? path <;> rfl

/-- A file that is not known stands in none of the maps, so all three are filled as before. -/
theorem add {path : Path} (fresh : store.get? path = none) (source : SourceFile) :
    (store.add path source).FilledFrom (sources.insert path source) := by
  have unknown : sources.get? path = none := by simpa [filled.get?_eq] using fresh
  constructor
  all_goals
    rw [PathMap.mapValues_insert _ unknown]
    simp only [Store.add, filled.contents, filled.declarations, filled.calls]

theorem mem_files_iff {file : LoadedFile} :
    file ∈ store.files ↔
      ∃ path source, (path, source) ∈ sources.entries ∧ file = LoadedFile.ofSource path source := by
  rw [Store.mem_files_iff, filled.calls, PathMap.keys_mapValues, filled.get?_eq,
    Option.map_eq_some_iff]
  constructor
  · rintro ⟨key_mem, source, found, same⟩
    rcases List.mem_map.mp key_mem with ⟨⟨path, stored⟩, entry_mem, key_eq⟩
    have stored_found : sources.get? file.path = some stored :=
      PathMap.get?_eq_some_iff.mpr ⟨path, entry_mem, by simp [← key_eq, Path.same]⟩
    obtain rfl := Option.some.inj (found.symm.trans stored_found)
    exact ⟨path, source, entry_mem, by rw [← same, ← key_eq]⟩
  · rintro ⟨path, source, entry_mem, rfl⟩
    refine ⟨List.mem_map.mpr ⟨_, entry_mem, rfl⟩, source, ?_, rfl⟩
    exact PathMap.get?_eq_some_iff.mpr ⟨path, entry_mem, by simp [LoadedFile.ofSource, Path.same]⟩

theorem eq_of_filledFrom {other : Store} (other_filled : other.FilledFrom sources) :
    store = other := by
  rcases store with ⟨contents, declarations, calls⟩
  rcases other with ⟨otherContents, otherDeclarations, otherCalls⟩
  exact congr (congr (congrArg Store.mk (filled.contents.trans other_filled.contents.symm))
    (filled.declarations.trans other_filled.declarations.symm))
    (filled.calls.trans other_filled.calls.symm)

end FilledFrom

/-- A store is filled from sources under normal paths. -/
def WellFormed (store : Store) : Prop :=
  ∃ sources : PathMap SourceFile, store.FilledFrom sources ∧ ∀ key ∈ sources.keys, key.IsNormal

theorem wellFormed_empty : empty.WellFormed :=
  ⟨PathMap.empty, filledFrom_empty, by simp [PathMap.empty, PathMap.keys]⟩

theorem WellFormed.add (wellFormed : store.WellFormed) {path : Path} (normal : path.IsNormal)
    (fresh : store.get? path = none) (source : SourceFile) :
    (store.add path source).WellFormed := by
  rcases wellFormed with ⟨sources, filled, keys_normal⟩
  refine ⟨sources.insert path source, filled.add fresh source, ?_⟩
  have unknown : sources.get? path = none := by simpa [filled.get?_eq] using fresh
  intro key key_mem
  rcases List.mem_map.mp key_mem with ⟨entry, entry_mem, rfl⟩
  rcases (PathMap.mem_insert_iff unknown source entry).mp entry_mem with rfl | old
  · exact normal
  · exact keys_normal entry.1 (List.mem_map_of_mem old)

theorem WellFormed.isNormal_key (wellFormed : store.WellFormed) {key : Path}
    (key_mem : key ∈ store.calls.keys) : key.IsNormal := by
  rcases wellFormed with ⟨sources, filled, keys_normal⟩
  rw [filled.calls, PathMap.keys_mapValues] at key_mem
  exact keys_normal key key_mem

theorem WellFormed.normal (wellFormed : store.WellFormed) {file : LoadedFile}
    (file_mem : file ∈ store.files) : file.path.IsNormal :=
  wellFormed.isNormal_key (mem_files_iff.mp file_mem).1

/-- A normal path is found exactly as the file that is kept under it. -/
theorem WellFormed.get?_eq_some_iff (wellFormed : store.WellFormed) {path : Path}
    (normal : path.IsNormal) {loaded : LoadedFile} :
    store.get? path = some loaded ↔ loaded ∈ store.files ∧ loaded.path = path := by
  constructor
  · intro found
    rcases exists_of_get? found with ⟨file, file_mem, same, rfl⟩
    rw [← (wellFormed.normal file_mem).eq_of_same normal same]
    exact ⟨file_mem, rfl⟩
  · rintro ⟨loaded_mem, rfl⟩
    exact (mem_files_iff.mp loaded_mem).2

end Store

end CodeFacts.Calls
