import CodeFacts.FileSystem.Walk
import CodeFacts.Proofs.FileSystem.Agreement
import CodeFacts.Proofs.Path.Extend
import Mathlib.Data.List.Nodup

/-!
# What a walk finds

A walk finds every path once, and each path leads from the root through directories that are not
skipped. A step of the walk takes one entry of a directory, and the names of the entries keep what
is found through them apart.
-/

namespace CodeFacts.FileSystem

variable {files : FileSystem}

/-- The name of an entry in the directory at a location, if it is there. -/
def listed? (location : Location) (entry : Location × Entry) : Option (String × Entry) :=
  if entry.1.dropLast == location then entry.1.getLast?.map fun name => (name, entry.2) else none

theorem list_eq (files : FileSystem) (location : Location) :
    files.list location = files.entries.filterMap (listed? location) :=
  rfl

theorem place_of_listed? {location : Location} {entry : Location × Entry}
    {found : String × Entry} (listed : listed? location entry = some found) :
    location ++ [found.1] = entry.1 := by
  unfold listed? at listed
  split at listed
  · rename_i here
    rcases Option.map_eq_some_iff.mp listed with ⟨name, last, rfl⟩
    rw [← eq_of_beq here]
    exact List.dropLast_append_getLast? name last
  · simp at listed

theorem mem_list_of_mem_entries {location : Location} {name : String} {entry : Entry}
    (entry_mem : (location ++ [name], entry) ∈ files.entries) :
    (name, entry) ∈ files.list location :=
  List.mem_filterMap.mpr ⟨_, entry_mem, by simp⟩

theorem list_sublist (files : FileSystem) (location : Location) :
    ((files.list location).map fun found => location ++ [found.1]).Sublist
      (files.entries.map Prod.fst) := by
  rw [list_eq]
  induction files.entries with
  | nil => exact List.Sublist.refl _
  | cons entry rest ih =>
      rw [List.map_cons]
      cases listed : listed? location entry with
      | none =>
          rw [List.filterMap_cons_none listed]
          exact ih.cons entry.1
      | some found =>
          rw [List.filterMap_cons_some listed, List.map_cons, place_of_listed? listed]
          exact ih.cons_cons entry.1

theorem exists_place_of_mem_list {name : String} {entry : Entry}
    (listed : (name, entry) ∈ files.list location) :
    ∃ held ∈ files.entries, held.1 = location ++ [name] :=
  List.mem_map.mp ((files.list_sublist location).subset (List.mem_map.mpr ⟨_, listed, rfl⟩))

/-- A directory has no two entries of one name. -/
theorem nodup_list (files : FileSystem) (location : Location) :
    ((files.list location).map Prod.fst).Nodup := by
  have places := (files.list_sublist location).nodup files.distinct
  have split : (files.list location).map (fun found => location ++ [found.1]) =
      ((files.list location).map Prod.fst).map fun name => location ++ [name] := by
    rw [List.map_map]
    rfl
  rw [split] at places
  exact places.of_map _

theorem isName_of_mem_list {location : Location} {name : String} {entry : Entry}
    (entry_mem : (name, entry) ∈ files.list location) : Path.IsName name := by
  rcases exists_place_of_mem_list entry_mem with ⟨found, found_mem, same⟩
  refine files.names found found_mem name ?_
  rw [same]
  exact List.mem_append_right _ List.mem_cons_self

/-- The files that a walk finds through one entry of a directory. -/
def filesThrough (files : FileSystem) (entered : List Location) (location : Location) (path : Path)
    (fuel : Nat) (found : String × Entry) : List Path :=
  let inner := path.join ⟨found.1⟩
  match files.target (location :: entered) (location ++ [found.1]) inner found.2 with
  | .file => [inner]
  | .nowhere => []
  | .directory below =>
    if skippedDirectories.contains found.1 then []
    else files.filesBelow (location :: entered) below inner fuel

theorem filesBelow_succ (files : FileSystem) (entered : List Location) (location : Location)
    (path : Path) (fuel : Nat) :
    files.filesBelow entered location path (fuel + 1) =
      if (pathFault? path).isSome || files.isUnreadable location then []
      else (files.list location).flatMap (files.filesThrough entered location path fuel) :=
  rfl

/-- The directory at a location can be listed by a path. -/
structure IsListable (files : FileSystem) (path : Path) (location : Location) : Prop where
  fits : pathFault? path = none
  readable : files.isUnreadable location = false

theorem IsListable.filesBelow_succ {path : Path} {location : Location}
    (listable : files.IsListable path location) (entered : List Location) (fuel : Nat) :
    files.filesBelow entered location path (fuel + 1) =
      (files.list location).flatMap (files.filesThrough entered location path fuel) := by
  rw [FileSystem.filesBelow_succ, listable.fits, listable.readable]
  rfl

/-- A directory that cannot be listed shows nothing. -/
theorem isListable_of_mem_filesBelow {entered : List Location} {location : Location} {path : Path}
    {fuel : Nat} {found : Path} (found_mem : found ∈ files.filesBelow entered location path fuel) :
    files.IsListable path location := by
  cases fuel with
  | zero => simp [filesBelow] at found_mem
  | succ fuel =>
      rw [FileSystem.filesBelow_succ] at found_mem
      split at found_mem
      · simp at found_mem
      · rename_i listable
        rw [Bool.or_eq_true, not_or, Bool.not_eq_true, Bool.not_eq_true, Option.isSome_eq_false_iff,
          Option.isNone_iff_eq_none] at listable
        exact ⟨listable.1, listable.2⟩

/-- Step: what a walk finds below a directory it finds through one of the entries. -/
theorem exists_of_mem_filesBelow {entered : List Location} {location : Location} {path : Path}
    {fuel : Nat} {found : Path}
    (found_mem : found ∈ files.filesBelow entered location path (fuel + 1)) :
    ∃ name entry, (name, entry) ∈ files.list location ∧
      found ∈ files.filesThrough entered location path fuel (name, entry) := by
  rw [(isListable_of_mem_filesBelow found_mem).filesBelow_succ] at found_mem
  rcases List.mem_flatMap.mp found_mem with ⟨⟨name, entry⟩, entry_mem, through⟩
  exact ⟨name, entry, entry_mem, through⟩

/-- What an entry leads to: nothing, itself, or what is below it if it is not skipped. -/
theorem filesThrough_cases (files : FileSystem) (entered : List Location) (location : Location)
    (path : Path) (fuel : Nat) (name : String) (entry : Entry) :
    files.filesThrough entered location path fuel (name, entry) = [] ∨
    files.filesThrough entered location path fuel (name, entry) = [path.join ⟨name⟩] ∨
    name ∉ skippedDirectories ∧ ∃ below,
      files.filesThrough entered location path fuel (name, entry) =
        files.filesBelow (location :: entered) below (path.join ⟨name⟩) fuel := by
  unfold filesThrough
  dsimp only
  split
  · exact Or.inr (Or.inl rfl)
  · exact Or.inl rfl
  · rename_i below _
    split
    · exact Or.inl rfl
    · rename_i kept
      exact Or.inr (Or.inr ⟨by simpa using kept, below, rfl⟩)

/-- A path leads from a directory through directories that are not skipped. -/
def LeadsBelow (directory path : Path) : Prop :=
  ∃ names : List String, path.components = directory.components ++ names.map Component.name ∧
    ∀ name ∈ names.dropLast, name ∉ skippedDirectories

theorem leadsBelow_self (path : Path) : LeadsBelow path path :=
  ⟨[], by simp, by simp⟩

theorem leadsBelow_join {path : Path} (tidy : path.IsTidy) {name : String}
    (isName : Path.IsName name) : LeadsBelow path (path.join ⟨name⟩) :=
  ⟨[name], by rw [tidy.components_join isName, List.map_singleton], by simp⟩

/-- What leads below an entry that is not skipped leads below its directory. -/
theorem LeadsBelow.of_join {directory path : Path} (tidy : directory.IsTidy) {name : String}
    (isName : Path.IsName name) (kept : name ∉ skippedDirectories)
    (leads : LeadsBelow (directory.join ⟨name⟩) path) : LeadsBelow directory path := by
  rcases leads with ⟨names, means, notSkipped⟩
  refine ⟨name :: names, ?_, ?_⟩
  · rw [means, tidy.components_join isName, List.map_cons, List.append_assoc,
      List.singleton_append]
  · intro other other_mem
    cases names with
    | nil => simp at other_mem
    | cons next rest =>
        rw [List.dropLast_cons_cons] at other_mem
        rcases List.mem_cons.mp other_mem with rfl | later
        · exact kept
        · exact notSkipped other later

/-- What is found below an entry starts with the name of the entry. -/
theorem LeadsBelow.prefix {directory path : Path} (leads : LeadsBelow directory path) :
    directory.components <+: path.components := by
  rcases leads with ⟨names, means, -⟩
  rw [means]
  exact List.prefix_append _ _

/-- Whether a path leads to a directory that can be listed. -/
def canList (files : FileSystem) (path : Path) : Bool :=
  match files.locate path with
  | .error _ => false
  | .ok location => files.isDirectoryAt location && !files.isUnreadable location

theorem canList_iff (path : Path) : files.canList path = true ↔
    ∃ location, files.locate path = .ok location ∧ files.isDirectoryAt location = true ∧
      files.isUnreadable location = false := by
  unfold canList
  cases files.locate path with
  | error fault => simp
  | ok location => simp

theorem isDirectory_of_canList {path : Path} (listable : files.canList path = true) :
    files.isDirectory path = true := by
  rcases (canList_iff path).mp listable with ⟨location, located, directory, -⟩
  exact (files.isDirectory_iff path).mpr ⟨location, located, directory⟩

/-- A walk starts from a directory if that can be listed. -/
theorem walk_of_isDirectoryAt {path : Path} {location : Location}
    (located : files.locate path = .ok location) (directory : files.isDirectoryAt location = true) :
    files.walk path =
      if files.isUnreadable location then .error .permissionDenied
      else .ok (files.filesBelow [] location path files.walkFuel) := by
  unfold isDirectoryAt at directory
  unfold walk
  rw [located]
  split at directory
  · rename_i found
    simp only [found]
  · simp at directory

theorem walk_of_not_canList {path : Path} (directory : files.isDirectory path = true)
    (unlistable : files.canList path = false) : files.walk path = .error .permissionDenied := by
  rcases (files.isDirectory_iff path).mp directory with ⟨location, located, there⟩
  rw [walk_of_isDirectoryAt located there, if_pos]
  simpa [canList, located, there] using unlistable

section SourceFiles

variable {root path : Path} {excluded : Path → Bool} {accept : Language → Bool}

theorem isWanted_iff : isWanted root excluded accept path = true ↔
    (∃ language, Language.ofPath? path = some language ∧ accept language = true) ∧
      excluded ((path.stripDirectory? root).getD path) = false := by
  unfold isWanted
  cases Language.ofPath? path with
  | none => simp
  | some language => simp

theorem sourceFiles_of_walk {found : List Path} (walked : files.walk root.normalize = .ok found) :
    files.sourceFiles root excluded accept =
      .ok ((found.filter (isWanted root.normalize excluded accept)).mergeSort Path.le) := by
  unfold sourceFiles
  dsimp only
  rw [walked]

theorem exists_sourceFiles_of_canList (listable : files.canList root.normalize = true)
    (excluded : Path → Bool) (accept : Language → Bool) :
    ∃ collected, files.sourceFiles root excluded accept = .ok collected := by
  rcases (canList_iff _).mp listable with ⟨location, located, directory, readable⟩
  have walked := walk_of_isDirectoryAt located directory
  rw [readable, if_neg Bool.false_ne_true] at walked
  exact ⟨_, sourceFiles_of_walk walked⟩

/-- No files are collected below a directory that may not be listed. -/
theorem sourceFiles_of_not_canList (directory : files.isDirectory root.normalize = true)
    (unlistable : files.canList root.normalize = false) (excluded : Path → Bool)
    (accept : Language → Bool) :
    files.sourceFiles root excluded accept = .error (.io root.normalize .permissionDenied) := by
  unfold sourceFiles
  dsimp only
  rw [walk_of_not_canList directory unlistable]

theorem exists_walk_of_sourceFiles {collected : List Path}
    (collects : files.sourceFiles root excluded accept = .ok collected) :
    ∃ found, files.walk root.normalize = .ok found ∧
      collected = (found.filter (isWanted root.normalize excluded accept)).mergeSort Path.le := by
  cases walked : files.walk root.normalize with
  | error fault =>
      unfold sourceFiles at collects
      dsimp only at collects
      rw [walked] at collects
      contradiction
  | ok found =>
      rw [sourceFiles_of_walk walked] at collects
      exact ⟨found, rfl, (Except.ok.inj collects).symm⟩

end SourceFiles

section Found

/-- Step: if a walk finds proper paths below each directory, so it does through each entry. -/
theorem mem_filesThrough {entered : List Location} {location : Location} {path : Path}
    {fuel : Nat} (tidy : path.IsTidy)
    (below : ∀ entered location inner, Path.IsTidy inner →
      ∀ found ∈ files.filesBelow entered location inner fuel,
        found.IsTidy ∧ LeadsBelow inner found)
    {name : String} {entry : Entry} (isName : Path.IsName name) {found : Path}
    (found_mem : found ∈ files.filesThrough entered location path fuel (name, entry)) :
    found.IsTidy ∧ LeadsBelow path found ∧ (path.join ⟨name⟩).components <+: found.components := by
  rcases files.filesThrough_cases entered location path fuel name entry with
    nothing | itself | ⟨kept, place, deeper⟩
  · simp [nothing] at found_mem
  · rw [itself] at found_mem
    obtain rfl := List.mem_singleton.mp found_mem
    exact ⟨tidy.join isName, leadsBelow_join tidy isName, List.prefix_refl _⟩
  · rw [deeper] at found_mem
    rcases below _ place _ (tidy.join isName) found found_mem with ⟨found_tidy, leads⟩
    exact ⟨found_tidy, leads.of_join tidy isName kept, leads.prefix⟩

/-- Everything that a walk finds is written tidily and leads through directories that are not
skipped. -/
theorem mem_filesBelow (files : FileSystem) (fuel : Nat) (entered : List Location) (location : Location)
    (path : Path) (tidy : path.IsTidy) :
    ∀ found ∈ files.filesBelow entered location path fuel,
      found.IsTidy ∧ LeadsBelow path found := by
  induction fuel generalizing entered location path with
  | zero => simp [filesBelow]
  | succ fuel ih =>
      intro found found_mem
      rcases exists_of_mem_filesBelow found_mem with ⟨name, entry, entry_mem, through⟩
      have isName := isName_of_mem_list entry_mem
      have proper := mem_filesThrough tidy ih isName through
      exact ⟨proper.1, proper.2.1⟩

/-- Everything that a walk finds is longer than the path of the directory. -/
theorem length_lt_of_mem_filesBelow {fuel : Nat} {entered : List Location}
    {location : Location} {path : Path} (tidy : path.IsTidy) {found : Path}
    (found_mem : found ∈ files.filesBelow entered location path fuel) :
    path.components.length < found.components.length := by
  cases fuel with
  | zero => simp [filesBelow] at found_mem
  | succ fuel =>
      rcases exists_of_mem_filesBelow found_mem with ⟨name, entry, entry_mem, through⟩
      have isName := isName_of_mem_list entry_mem
      have below := (mem_filesThrough tidy (files.mem_filesBelow fuel) isName through).2.2
      have length := below.length_le
      rw [tidy.components_join isName, List.length_append, List.length_singleton] at length
      omega

/-- Paths that are found through entries of different names are different. -/
theorem disjoint_filesThrough {entered : List Location} {location : Location}
    {path : Path} {fuel : Nat} (tidy : path.IsTidy) {first second : String × Entry}
    (first_mem : first ∈ files.list location) (second_mem : second ∈ files.list location)
    (differ : first.1 ≠ second.1) :
    List.Disjoint
      ((files.filesThrough entered location path fuel first).map Path.components)
      ((files.filesThrough entered location path fuel second).map Path.components) := by
  intro means inFirst inSecond
  rcases List.mem_map.mp inFirst with ⟨one, one_mem, rfl⟩
  rcases List.mem_map.mp inSecond with ⟨other, other_mem, same⟩
  have first_name := isName_of_mem_list first_mem
  have second_name := isName_of_mem_list second_mem
  have first_prefix := (mem_filesThrough tidy (files.mem_filesBelow fuel) first_name one_mem).2.2
  have second_prefix :=
    (mem_filesThrough tidy (files.mem_filesBelow fuel) second_name other_mem).2.2
  rw [tidy.components_join first_name] at first_prefix
  rw [same, tidy.components_join second_name] at second_prefix
  have equal := (List.prefix_of_prefix_length_le first_prefix second_prefix (by simp)).eq_of_length
    (by simp)
  have names := List.append_cancel_left equal
  simp only [List.cons.injEq, Component.name.injEq, and_true] at names
  exact differ names

/-- A walk finds every path once. -/
theorem nodup_filesBelow (files : FileSystem) (fuel : Nat) (entered : List Location) (location : Location)
    (path : Path) (tidy : path.IsTidy) :
    ((files.filesBelow entered location path fuel).map Path.components).Nodup := by
  induction fuel generalizing entered location path with
  | zero => simp [filesBelow]
  | succ fuel ih =>
      rw [filesBelow_succ]
      split
      · exact List.nodup_nil
      rw [List.map_flatMap, List.nodup_flatMap]
      refine ⟨?_, ?_⟩
      · rintro ⟨name, entry⟩ entry_mem
        have isName := isName_of_mem_list entry_mem
        rcases files.filesThrough_cases entered location path fuel name entry with
          nothing | itself | ⟨-, place, deeper⟩
        · simp [nothing]
        · simp [itself]
        · rw [deeper]
          exact ih _ place _ (tidy.join isName)
      · have names := List.pairwise_map.mp (files.nodup_list location)
        refine names.imp_of_mem ?_
        intro first second first_mem second_mem differ
        exact disjoint_filesThrough tidy first_mem second_mem differ

theorem walk_spec {root : Path} (tidy : root.IsTidy) {found : List Path}
    (walked : files.walk root = .ok found) :
    (found.map Path.components).Nodup ∧
      ∀ path ∈ found, path.IsTidy ∧ LeadsBelow root path := by
  unfold walk at walked
  split at walked
  · simp at walked
  rename_i location _
  split at walked
  · obtain rfl := Except.ok.inj walked
    simpa using ⟨tidy, leadsBelow_self root⟩
  · split at walked
    · simp at walked
    obtain rfl := Except.ok.inj walked
    exact ⟨files.nodup_filesBelow _ _ _ _ tidy, files.mem_filesBelow _ _ _ _ tidy⟩
  · simp at walked

/-- A source file below a root: its language is accepted, it is not excluded, and it is reached
through directories that are not skipped. -/
structure IsSourceFile (root : Path) (excluded : Path → Bool) (accept : Language → Bool)
    (path : Path) : Prop where
  language : ∃ language, Language.ofPath? path = some language ∧ accept language = true
  included : excluded ((path.stripDirectory? root).getD path) = false
  leadsBelow : LeadsBelow root path

theorem isSourceFile_of_isWanted {root : Path} {excluded : Path → Bool}
    {accept : Language → Bool} {path : Path} (wanted : isWanted root excluded accept path = true)
    (leads : LeadsBelow root path) : IsSourceFile root excluded accept path := by
  rcases isWanted_iff.mp wanted with ⟨language, included⟩
  exact ⟨language, included, leads⟩

/-- Source files are collected once each and written tidily. -/
theorem sourceFiles_spec {root : Path} {excluded : Path → Bool}
    {accept : Language → Bool} {collected : List Path}
    (collects : files.sourceFiles root excluded accept = .ok collected) :
    (collected.map Path.components).Nodup ∧
      ∀ path ∈ collected, path.IsTidy ∧ IsSourceFile root.normalize excluded accept path := by
  rcases exists_walk_of_sourceFiles collects with ⟨found, walked, rfl⟩
  rcases walk_spec root.isTidy_normalize walked with ⟨nodup, proper⟩
  refine ⟨?_, ?_⟩
  · rw [((List.mergeSort_perm _ _).map Path.components).nodup_iff]
    exact (List.filter_sublist.map Path.components).nodup nodup
  · intro path path_mem
    rw [List.mem_mergeSort, List.mem_filter] at path_mem
    rcases proper path path_mem.1 with ⟨tidy, leads⟩
    exact ⟨tidy, isSourceFile_of_isWanted path_mem.2 leads⟩

end Found

end CodeFacts.FileSystem
