import CodeFacts.Proofs.FileSystem.Descent
import Mathlib.Data.Finset.Card
import Mathlib.Tactic.Ring

/-!
# Ways from a root

A directory is reached from a root by names, entry after entry. A link is followed by the whole
path, unless it leads back to a directory that was passed on the way to it. So a way has only so
many steps: between two links it goes deeper with every name, and every link leads to a directory
that was not passed before.
-/

namespace CodeFacts.FileSystem

/-- Where an entry leads that stands at a place and is reached by a path, after some directories
were passed: a link leads where the path leads, but not back to one of these. -/
inductive LeadsTo (files : FileSystem) (passed : List Location) (place : Location) (path : Path) :
    Entry → Target → Prop where
  | file {source : SourceFile} : LeadsTo files passed place path (.file source) .file
  | directory : LeadsTo files passed place path .directory (.directory place)
  | linkToFile {text : Path} {final : Location} {source : SourceFile}
      (located : files.locate path = .ok final)
      (found : files.entry? final = some (.file source)) :
      LeadsTo files passed place path (.link text) .file
  | linkToDirectory {text : Path} {final : Location} (located : files.locate path = .ok final)
      (found : files.entry? final = some .directory) (new : final ∉ passed) :
      LeadsTo files passed place path (.link text) (.directory final)

/-- A directory is reached from a root by names, through directories that can be opened. The
locations of these are kept, the last one first. -/
inductive ReachesDirectory (files : FileSystem) (opens : Path → Location → Prop) (root : Path) :
    List String → List Location → Location → Prop where
  | root {location : Location} (located : files.locate root = .ok location)
      (found : files.entry? location = some .directory) :
      ReachesDirectory files opens root [] [] location
  | down {names : List String} {passed : List Location} {location below : Location}
      {name : String} {entry : Entry}
      (above : ReachesDirectory files opens root names passed location)
      (opened : opens (root.descend names) location)
      (listed : (name, entry) ∈ files.list location)
      (leads : files.LeadsTo (location :: passed) (location ++ [name])
        (root.descend (names ++ [name])) entry (.directory below)) :
      ReachesDirectory files opens root (names ++ [name]) (location :: passed) below

/-- A file is reached from a root by names: it is the root, or in a directory that is reached. -/
inductive ReachesFile (files : FileSystem) (opens : Path → Location → Prop) (root : Path) :
    List String → Prop where
  | root {location : Location} {source : SourceFile} (located : files.locate root = .ok location)
      (found : files.entry? location = some (.file source)) : ReachesFile files opens root []
  | inside {names : List String} {passed : List Location} {location : Location} {name : String}
      {entry : Entry} (above : files.ReachesDirectory opens root names passed location)
      (opened : opens (root.descend names) location)
      (listed : (name, entry) ∈ files.list location)
      (leads : files.LeadsTo (location :: passed) (location ++ [name])
        (root.descend (names ++ [name])) entry .file) :
      ReachesFile files opens root (names ++ [name])

/-- None of the names is that of a skipped directory. -/
def PassesNoSkipped (names : List String) : Prop :=
  ∀ name ∈ names, name ∉ skippedDirectories

instance (names : List String) : Decidable (PassesNoSkipped names) :=
  inferInstanceAs (Decidable (∀ name ∈ names, name ∉ skippedDirectories))

variable {files : FileSystem} {passed : List Location} {place location : Location}
  {path root : Path} {opens : Path → Location → Prop} {names : List String}

theorem ReachesDirectory.exists_root
    (reaches : files.ReachesDirectory opens root names passed location) :
    ∃ top, files.locate root = .ok top ∧ files.entry? top = some .directory := by
  induction reaches with
  | root located found => exact ⟨_, located, found⟩
  | down above opened listed leads ih => exact ih

/-- Every name on the way to a directory that is reached stands in the file system. -/
theorem ReachesDirectory.exists_entry
    (reaches : files.ReachesDirectory opens root names passed location) :
    ∀ name ∈ names, ∃ held ∈ files.entries, name ∈ held.1 := by
  induction reaches with
  | root => simp
  | down above opened listed leads ih =>
      refine List.forall_mem_append.mpr ⟨ih, List.forall_mem_singleton.mpr ?_⟩
      rcases exists_place_of_mem_list listed with ⟨held, held_mem, place⟩
      exact ⟨held, held_mem, by simp [place]⟩

theorem isName_of_reachesFile (reaches : files.ReachesFile opens root names) :
    ∀ name ∈ names, Path.IsName name := by
  cases reaches with
  | root => simp
  | inside above opened listed leads =>
      refine List.forall_mem_append.mpr ⟨?_, List.forall_mem_singleton.mpr ?_⟩
      · intro name name_mem
        rcases above.exists_entry name name_mem with ⟨held, held_mem, inside⟩
        exact files.names held held_mem name inside
      · exact isName_of_mem_list listed

section Depth

/-- Where a directory may stand. -/
def places (files : FileSystem) : Finset Location :=
  insert [] (files.entries.map Prod.fst).toFinset

/-- How many places have not been passed. -/
def placesLeft (files : FileSystem) (passed : List Location) : Nat :=
  (files.places \ passed.toFinset).card

/-- How many levels below a location have entries. -/
def levelsBelow (files : FileSystem) (location : Location) : Nat :=
  ((files.entries.map fun entry => entry.1.length).toFinset.filter (location.length < ·)).card

/-- A bound on the steps that lead on from a directory: links lead to places that have not been
passed, and between two of them every step leads to a lower level. -/
def stepsLeft (files : FileSystem) (passed : List Location) (location : Location) : Nat :=
  files.placesLeft (location :: passed) * (files.entries.length + 1) + files.levelsBelow location

theorem placesLeft_le (files : FileSystem) (passed : List Location) :
    files.placesLeft passed ≤ files.entries.length + 1 := by
  have all : files.placesLeft passed ≤ files.places.card := Finset.card_le_card Finset.sdiff_subset
  have entries := List.toFinset_card_le (files.entries.map Prod.fst)
  have root := Finset.card_insert_le ([] : Location) (files.entries.map Prod.fst).toFinset
  rw [List.length_map] at entries
  exact all.trans (root.trans (by omega))

theorem levelsBelow_le (files : FileSystem) (location : Location) :
    files.levelsBelow location ≤ files.entries.length := by
  have levels := List.toFinset_card_le (files.entries.map fun entry => entry.1.length)
  rw [List.length_map] at levels
  exact (Finset.card_filter_le _ _).trans levels

theorem placesLeft_cons_le (files : FileSystem) (location : Location) (passed : List Location) :
    files.placesLeft (location :: passed) ≤ files.placesLeft passed := by
  apply Finset.card_le_card
  apply Finset.sdiff_subset_sdiff (Finset.Subset.refl _)
  simp

theorem placesLeft_cons_lt (place_mem : place ∈ files.places) (new : place ∉ passed) :
    files.placesLeft (place :: passed) < files.placesLeft passed := by
  apply Finset.card_lt_card
  rw [Finset.ssubset_iff_of_subset (Finset.sdiff_subset_sdiff (Finset.Subset.refl _) (by simp))]
  exact ⟨place, by simp [place_mem, new], by simp⟩

theorem levelsBelow_lt {name : String} {entry : Entry}
    (listed : (name, entry) ∈ files.list location) :
    files.levelsBelow (location ++ [name]) < files.levelsBelow location := by
  rcases exists_place_of_mem_list listed with ⟨held, held_mem, place⟩
  apply Finset.card_lt_card
  rw [Finset.ssubset_iff_of_subset]
  · refine ⟨location.length + 1, ?_, by simp⟩
    rw [Finset.mem_filter, List.mem_toFinset]
    refine ⟨List.mem_map.mpr ⟨held, held_mem, ?_⟩, by omega⟩
    simp [place]
  · intro level level_mem
    rw [Finset.mem_filter] at level_mem ⊢
    refine ⟨level_mem.1, ?_⟩
    have deeper := level_mem.2
    rw [List.length_append] at deeper
    omega

theorem mem_places (found : files.entry? location = some .directory) :
    location ∈ files.places := by
  unfold places
  rw [Finset.mem_insert, List.mem_toFinset]
  unfold entry? at found
  split at found
  · rename_i empty
    exact Or.inl (by simpa using empty)
  · rcases Option.map_eq_some_iff.mp found with ⟨held, first, -⟩
    have there : held.1 = location := by simpa using List.find?_some first
    exact Or.inr (List.mem_map.mpr ⟨held, List.mem_of_find?_eq_some first, there⟩)

/-- Step: every step to a directory leaves fewer steps. -/
theorem LeadsTo.stepsLeft_lt {name : String} {entry : Entry} {below : Location}
    (listed : (name, entry) ∈ files.list location)
    (leads : files.LeadsTo (location :: passed) (location ++ [name]) path entry
      (.directory below)) :
    files.stepsLeft (location :: passed) below < files.stepsLeft passed location := by
  unfold stepsLeft
  cases leads with
  | directory =>
      have places := files.placesLeft_cons_le (location ++ [name]) (location :: passed)
      have levels := levelsBelow_lt listed
      have product := Nat.mul_le_mul_right (files.entries.length + 1) places
      omega
  | linkToDirectory located found new =>
      have places := placesLeft_cons_lt (mem_places found) new
      -- The link may lead up again, but the place that it takes away pays for every level.
      have levels := files.levelsBelow_le below
      have product := Nat.mul_le_mul_right (files.entries.length + 1) places
      rw [Nat.succ_mul] at product
      omega

/-- Run: the names that were followed and the steps that are left are bounded together. -/
theorem ReachesDirectory.length_add_stepsLeft_le
    (reaches : files.ReachesDirectory opens root names passed location) :
    names.length + files.stepsLeft passed location ≤
      (files.entries.length + 1) * (files.entries.length + 1) + files.entries.length := by
  induction reaches with
  | @root location located found =>
      have places := files.placesLeft_le [location]
      have levels := files.levelsBelow_le location
      have product := Nat.mul_le_mul_right (files.entries.length + 1) places
      unfold stepsLeft
      rw [List.length_nil]
      omega
  | down above opened listed leads ih =>
      have fewer := leads.stepsLeft_lt listed
      rw [List.length_append, List.length_singleton]
      omega

/-- The depth that a walk allows is more than every way to a directory takes. -/
theorem ReachesDirectory.length_lt_walkFuel
    (reaches : files.ReachesDirectory opens root names passed location) :
    names.length < files.walkFuel := by
  have bounded := reaches.length_add_stepsLeft_le
  have enough : files.walkFuel =
      (files.entries.length + 1) * (files.entries.length + 1) + 2 * files.entries.length + 3 := by
    unfold walkFuel
    ring
  omega

end Depth

/-- Every directory can be listed that is reached from a root through directories that are not
skipped. -/
def IsOpenBelow (files : FileSystem) (root : Path) : Prop :=
  ∀ names passed location,
    files.ReachesDirectory (fun _ _ => True) root names passed location → PassesNoSkipped names →
      files.IsListable (root.descend names) location

theorem ReachesDirectory.anyway
    (reaches : files.ReachesDirectory opens root names passed location) :
    files.ReachesDirectory (fun _ _ => True) root names passed location := by
  induction reaches with
  | root located found => exact .root located found
  | down above opened listed leads ih => exact .down ih trivial listed leads

theorem ReachesDirectory.listable (isOpen : files.IsOpenBelow root)
    (reaches : files.ReachesDirectory (fun _ _ => True) root names passed location)
    (kept : PassesNoSkipped names) :
    files.ReachesDirectory files.IsListable root names passed location := by
  induction reaches with
  | root located found => exact .root located found
  | down above opened listed leads ih =>
      have kept_above := (List.forall_mem_append.mp kept).1
      exact .down (ih kept_above) (isOpen _ _ _ above kept_above) listed leads

/-- A path can be located after going down, as long as it stays short enough. -/
theorem pathFault?_descend {names : List String} (tidy : path.IsTidy)
    (noNull : '\x00' ∉ path.text.toList) {most : Nat}
    (short : path.text.utf8ByteSize + names.length * (most + 1) ≤ pathLimit)
    (isName : ∀ name ∈ names, Path.IsName name ∧ name.utf8ByteSize ≤ most ∧ '\x00' ∉ name.toList) :
    pathFault? (path.descend names) = none := by
  induction names generalizing path with
  | nil => exact pathFault?_eq_none noNull tidy.text_ne_empty (by simpa [Path.descend] using short)
  | cons name names ih =>
      rcases List.forall_mem_cons.mp isName with ⟨⟨named, nameShort, nameNoNull⟩, others⟩
      have longer : (path.join ⟨name⟩).text.utf8ByteSize ≤ _ := path.size_join_le ⟨name⟩
      rw [List.length_cons, Nat.succ_mul] at short
      dsimp only at longer
      refine ih (tidy.join named) (Path.null_notMem_join noNull nameNoNull) ?_ others
      dsimp only
      omega

/-- In a small file system with short names every directory can be listed that may be. -/
theorem isOpenBelow_of_short (readable : files.unreadable = []) {root : Path} (tidy : root.IsTidy)
    (noNull : '\x00' ∉ root.text.toList) {most : Nat}
    (short : ∀ held ∈ files.entries, ∀ name ∈ held.1,
      name.utf8ByteSize ≤ most ∧ '\x00' ∉ name.toList)
    (fits : root.text.utf8ByteSize + files.walkFuel * (most + 1) ≤ pathLimit) :
    files.IsOpenBelow root := by
  intro names passed location reaches _
  have few := Nat.mul_le_mul_right (most + 1) (Nat.le_of_lt reaches.length_lt_walkFuel)
  refine ⟨?_, by simp [isUnreadable, readable]⟩
  refine pathFault?_descend tidy noNull (Nat.le_trans (Nat.add_le_add_left few _) fits) ?_
  intro name name_mem
  rcases reaches.exists_entry name name_mem with ⟨held, held_mem, inside⟩
  exact ⟨files.names held held_mem name inside, short held held_mem name inside⟩

end CodeFacts.FileSystem
