import CodeFacts.Proofs.FileSystem.Descent
import CodeFacts.Proofs.Path.Under

/-!
# Walks from two spellings of a directory

A directory can be written under two bases, say relative to the working directory and from the
root. If all paths under one base lead to where the paths by the same names under the other lead,
then walks from both find the same names. What keeps this from being true of all directories is the
length of paths: one of two spellings can be too long where the other is not.
-/

namespace CodeFacts

open CodeFacts.Path (under IsStart IsName)

theorem Path.exists_text_join (path : Path) {name : String} (isName : IsName name) :
    ∃ rest, (path.join ⟨name⟩).text = path.text ++ rest := by
  unfold Path.join
  rw [if_neg isName.not_isAbsolute]
  split
  · exact ⟨name, rfl⟩
  · exact ⟨"/" ++ name, String.append_assoc⟩

namespace FileSystem

theorem pathFault?_eq_none_iff (path : Path) :
    pathFault? path = none ↔
      '\x00' ∉ path.text.toList ∧ path.text ≠ "" ∧ path.text.utf8ByteSize ≤ pathLimit := by
  unfold pathFault?
  split_ifs with null empty long <;> simp_all

/-- A path that can be located is not made so by leaving out the last name. -/
theorem pathFault?_of_join {path : Path} (tidy : path.IsTidy) {name : String}
    (isName : IsName name) (fits : pathFault? (path.join ⟨name⟩) = none) :
    pathFault? path = none := by
  rcases path.exists_text_join isName with ⟨rest, text⟩
  rw [pathFault?_eq_none_iff, text, String.toList_append, String.utf8ByteSize_append] at fits
  rw [pathFault?_eq_none_iff]
  refine ⟨fun null => fits.1 (List.mem_append_left _ null), tidy.text_ne_empty, ?_⟩
  omega

theorem pathFault?_of_under {base : List Component} (start : IsStart base)
    {names more : List String} (isName : ∀ name ∈ names ++ more, IsName name)
    (fits : pathFault? (under base (names ++ more)) = none) :
    pathFault? (under base names) = none := by
  induction more using List.reverseRecOn with
  | nil => simpa using fits
  | append_singleton more name ih =>
      rw [← List.append_assoc] at isName fits
      rw [← start.join_under isName] at fits
      rw [List.forall_mem_append, List.forall_mem_singleton] at isName
      have tidy := Path.isTidy_under start.toIsBase isName.1
      exact ih isName.1 (pathFault?_of_join tidy isName.2 fits)

/-- Paths under two bases lead to the same places, unless one of them cannot be located for its
text. -/
def SamePlaces (files : FileSystem) (here there : List Component) : Prop :=
  ∀ names, (∀ name ∈ names, IsName name) → pathFault? (under here names) = none →
    pathFault? (under there names) = none →
    files.locate (under here names) = files.locate (under there names)

theorem target_congr {files : FileSystem} {first second : Path}
    (same : files.locate first = files.locate second) (entered : List Location)
    (location : Location) (entry : Entry) :
    files.target entered location first entry = files.target entered location second entry := by
  cases entry <;> simp only [target, same]

section Walk

variable {files : FileSystem}

/-- What is found under a base is written under it. -/
theorem exists_under_of_mem_filesBelow {base : List Component} (start : IsStart base)
    {names : List String} (isName : ∀ name ∈ names, IsName name)
    {entered : List Location} {location : Location} {fuel : Nat} {found : Path}
    (found_mem : found ∈ files.filesBelow entered location (under base names) fuel) :
    ∃ more, (∀ name ∈ names ++ more, IsName name) ∧ found = under base (names ++ more) := by
  have tidy := Path.isTidy_under start.toIsBase isName
  rcases files.mem_filesBelow fuel entered location _ tidy found found_mem with
    ⟨found_tidy, more, means, -⟩
  have all_names : ∀ name ∈ names ++ more, IsName name := by
    refine List.forall_mem_append.mpr ⟨isName, ?_⟩
    intro name name_mem
    have component_mem : .name name ∈ found.components := by
      rw [means]
      exact List.mem_append_right _ (List.mem_map_of_mem name_mem)
    exact Path.isName_of_mem_components component_mem
  refine ⟨more, all_names, ?_⟩
  refine found_tidy.eq_of_components (Path.isTidy_under start.toIsBase all_names) ?_
  rw [means, start.components_under isName, start.components_under all_names, List.map_append,
    List.append_assoc]

/-- What is found through an entry is written under the base with the name of the entry. -/
theorem exists_under_of_mem_filesThrough {base : List Component} (start : IsStart base)
    {names : List String} {name : String}
    (isName : ∀ other ∈ names ++ [name], IsName other) {entered : List Location}
    {location : Location} {fuel : Nat} {entry : Entry} {found : Path}
    (found_mem :
      found ∈ files.filesThrough entered location (under base names) fuel (name, entry)) :
    ∃ more, (∀ other ∈ names ++ [name] ++ more, IsName other) ∧
      found = under base (names ++ [name] ++ more) := by
  have joined := start.join_under isName
  rcases files.filesThrough_cases entered location (under base names) fuel name entry with
    nothing | itself | ⟨-, place, deeper⟩
  · simp [nothing] at found_mem
  · rw [itself, joined, List.mem_singleton] at found_mem
    exact ⟨[], by simpa using isName, by simpa using found_mem⟩
  · rw [deeper, joined] at found_mem
    exact exists_under_of_mem_filesBelow start isName found_mem

end Walk

section TwoBases

variable {files : FileSystem} {here there : List Component}
  (hereStart : IsStart here) (thereStart : IsStart there) (same : files.SamePlaces here there)

/-- The paths by given names can be located under both bases, as far as their texts go. -/
def FitUnder (here there : List Component) (names : List String) : Prop :=
  pathFault? (under here names) = none ∧ pathFault? (under there names) = none

/-- All paths of two lists, each written under one base, can be located under both. -/
def AllFit (here there : List Component) (first second : List Path) : Prop :=
  ∀ names, (∀ name ∈ names, IsName name) →
    under here names ∈ first ∨ under there names ∈ second → FitUnder here there names

/-- Two lists of paths are written by the same names under two bases, and by more than a number of
them. -/
def SameNames (here there : List Component) (depth : Nat) (first second : List Path) : Prop :=
  ∃ found : List (List String),
    (∀ names ∈ found, depth < names.length ∧ ∀ name ∈ names, IsName name) ∧
      first = found.map (under here) ∧ second = found.map (under there)

theorem sameNames_nil (depth : Nat) : SameNames here there depth [] [] :=
  ⟨[], by simp, rfl, rfl⟩

theorem SameNames.mono {first second : List Path} {depth deeper : Nat} (le : depth ≤ deeper)
    (sameNames : SameNames here there deeper first second) :
    SameNames here there depth first second := by
  rcases sameNames with ⟨found, proper, one, other⟩
  refine ⟨found, ?_, one, other⟩
  intro names names_mem
  exact ⟨Nat.lt_of_le_of_lt le (proper names names_mem).1, (proper names names_mem).2⟩

theorem sameNames_flatMap {α : Type} {elements : List α} {depth : Nat}
    {first second : α → List Path}
    (each : ∀ element ∈ elements, SameNames here there depth (first element) (second element)) :
    SameNames here there depth (elements.flatMap first) (elements.flatMap second) := by
  induction elements with
  | nil => exact sameNames_nil depth
  | cons element rest ih =>
      rw [List.forall_mem_cons] at each
      rcases each.1 with ⟨found, proper, one, other⟩
      rcases ih each.2 with ⟨more, more_proper, more_one, more_other⟩
      refine ⟨found ++ more, List.forall_mem_append.mpr ⟨proper, more_proper⟩, ?_, ?_⟩
      · rw [List.flatMap_cons, one, more_one, List.map_append]
      · rw [List.flatMap_cons, other, more_other, List.map_append]

include hereStart thereStart

theorem FitUnder.of_append {names more : List String}
    (isName : ∀ name ∈ names ++ more, IsName name) (fit : FitUnder here there (names ++ more)) :
    FitUnder here there names :=
  ⟨pathFault?_of_under hereStart isName fit.1,
    pathFault?_of_under thereStart isName fit.2⟩

/-- Nothing is found below a place whose path does not fit under both bases. -/
theorem sameNames_of_not_fitUnder {names : List String} (tooLong : ¬FitUnder here there names)
    {first second : List Path} (fits : AllFit here there first second)
    (from_here : ∀ found ∈ first, ∃ more, (∀ name ∈ names ++ more, IsName name) ∧
      found = under here (names ++ more))
    (from_there : ∀ found ∈ second, ∃ more, (∀ name ∈ names ++ more, IsName name) ∧
      found = under there (names ++ more)) (depth : Nat) :
    SameNames here there depth first second := by
  have first_nil : first = [] := by
    apply List.eq_nil_iff_forall_not_mem.mpr
    intro found found_mem
    rcases from_here found found_mem with ⟨more, isName, rfl⟩
    exact tooLong (FitUnder.of_append hereStart thereStart isName
      (fits _ isName (Or.inl found_mem)))
  have second_nil : second = [] := by
    apply List.eq_nil_iff_forall_not_mem.mpr
    intro found found_mem
    rcases from_there found found_mem with ⟨more, isName, rfl⟩
    exact tooLong (FitUnder.of_append hereStart thereStart isName
      (fits _ isName (Or.inr found_mem)))
  rw [first_nil, second_nil]
  exact sameNames_nil depth

include same

/-- Step: an entry leads to the same names from both spellings of its directory. -/
theorem sameNames_filesThrough {names : List String} {name : String}
    (isName : ∀ other ∈ names ++ [name], IsName other) {entered : List Location}
    {location : Location} {fuel : Nat} {entry : Entry}
    (fits : AllFit here there
      (files.filesThrough entered location (under here names) fuel (name, entry))
      (files.filesThrough entered location (under there names) fuel (name, entry)))
    (below : ∀ entered location,
      AllFit here there (files.filesBelow entered location (under here (names ++ [name])) fuel)
        (files.filesBelow entered location (under there (names ++ [name])) fuel) →
      SameNames here there (names ++ [name]).length
        (files.filesBelow entered location (under here (names ++ [name])) fuel)
        (files.filesBelow entered location (under there (names ++ [name])) fuel)) :
    SameNames here there names.length
      (files.filesThrough entered location (under here names) fuel (name, entry))
      (files.filesThrough entered location (under there names) fuel (name, entry)) := by
  by_cases fit : FitUnder here there (names ++ [name])
  · have located := same _ isName fit.1 fit.2
    unfold filesThrough at fits ⊢
    simp only [hereStart.join_under isName, thereStart.join_under isName, target_congr located]
      at fits ⊢
    cases leads : files.target (location :: entered) (location ++ [name])
        (under there (names ++ [name])) entry with
    | file => exact ⟨[names ++ [name]], by simpa using isName, rfl, rfl⟩
    | nowhere => exact sameNames_nil _
    | directory place =>
        simp only [leads] at fits ⊢
        by_cases skipped : skippedDirectories.contains name = true
        · rw [if_pos skipped, if_pos skipped]
          exact sameNames_nil _
        · rw [if_neg skipped, if_neg skipped] at fits ⊢
          exact (below _ _ fits).mono (by simp)
  · refine sameNames_of_not_fitUnder hereStart thereStart fit fits ?_ ?_ _
    · intro found found_mem
      exact exists_under_of_mem_filesThrough hereStart isName found_mem
    · intro found found_mem
      exact exists_under_of_mem_filesThrough thereStart isName found_mem

/-- Walks from both spellings of a directory find the same names. -/
theorem sameNames_filesBelow (fuel : Nat) {names : List String}
    (isName : ∀ name ∈ names, IsName name) (entered : List Location) (location : Location)
    (fits : AllFit here there (files.filesBelow entered location (under here names) fuel)
      (files.filesBelow entered location (under there names) fuel)) :
    SameNames here there names.length
      (files.filesBelow entered location (under here names) fuel)
      (files.filesBelow entered location (under there names) fuel) := by
  induction fuel generalizing names entered location with
  | zero => exact sameNames_nil _
  | succ fuel ih =>
      by_cases fit : FitUnder here there names
      · cases unreadable : files.isUnreadable location with
        | true =>
            rw [filesBelow_succ, filesBelow_succ, unreadable, Bool.or_true, Bool.or_true]
            exact sameNames_nil _
        | false =>
            rw [IsListable.filesBelow_succ ⟨fit.1, unreadable⟩,
              IsListable.filesBelow_succ ⟨fit.2, unreadable⟩] at fits ⊢
            apply sameNames_flatMap
            rintro ⟨name, entry⟩ entry_mem
            have all_named : ∀ other ∈ names ++ [name], IsName other :=
              List.forall_mem_append.mpr ⟨isName,
                List.forall_mem_singleton.mpr (isName_of_mem_list entry_mem)⟩
            apply sameNames_filesThrough hereStart thereStart same
              all_named
            · intro more more_named found
              apply fits more more_named
              exact found.imp (fun found_mem => List.mem_flatMap.mpr ⟨_, entry_mem, found_mem⟩)
                fun found_mem => List.mem_flatMap.mpr ⟨_, entry_mem, found_mem⟩
            · intro entered location below_fits
              exact ih all_named entered location below_fits
      · refine sameNames_of_not_fitUnder hereStart thereStart fit fits ?_ ?_ _
        · intro found found_mem
          exact exists_under_of_mem_filesBelow hereStart isName found_mem
        · intro found found_mem
          exact exists_under_of_mem_filesBelow thereStart isName found_mem

end TwoBases

theorem pathFault?_of_locate {files : FileSystem} {path : Path} {location : Location}
    (located : files.locate path = .ok location) : pathFault? path = none := by
  unfold locate at located
  split at located
  · simp at located
  · assumption

/-- All files that a walk from one spelling of a directory finds have paths that can be located,
in this spelling and in another. -/
def FitsFrom (files : FileSystem) (here there : Path) : Prop :=
  ∀ found, files.walk here = .ok found → ∀ path ∈ found,
    pathFault? path = none ∧ pathFault? (path.rebase here there) = none

theorem read_congr {files : FileSystem} {first second : Path}
    (same : files.locate first = files.locate second) : files.read first = files.read second := by
  unfold read
  rw [same]

/-- Source files are among what a walk finds. -/
theorem exists_sourceFiles_of_walk {files : FileSystem} {root : Path} {found : List Path}
    (walked : files.walk root.normalize = .ok found) (excluded : Path → Bool)
    (accept : Language → Bool) :
    ∃ collected, files.sourceFiles root excluded accept = .ok collected ∧
      ∀ path ∈ collected, path ∈ found := by
  refine ⟨_, sourceFiles_of_walk walked, ?_⟩
  intro path path_mem
  rw [List.mem_mergeSort] at path_mem
  exact List.mem_of_mem_filter path_mem

/-- The language of a file depends on its name only. -/
theorem ofPath?_under {here there : List Component} (hereStart : IsStart here)
    (thereStart : IsStart there) {names : List String} (nonempty : names ≠ [])
    (isName : ∀ name ∈ names, IsName name) :
    Language.ofPath? (under here names) = Language.ofPath? (under there names) := by
  rcases List.eq_nil_or_concat names with rfl | ⟨front, last, rfl⟩
  · exact absurd rfl nonempty
  rw [List.concat_eq_append] at isName ⊢
  unfold Language.ofPath? Path.extension?
  rw [Path.fileName?_under hereStart.toIsBase isName,
    Path.fileName?_under thereStart.toIsBase isName]

/-- Whether a file is wanted depends on its names below the root only. -/
theorem isWanted_under {here there : List Component} (hereStart : IsStart here)
    (thereStart : IsStart there) (excluded : Path → Bool) (accept : Language → Bool)
    {names : List String} (nonempty : names ≠ []) (isName : ∀ name ∈ names, IsName name) :
    isWanted (under here []) excluded accept (under here names) =
      isWanted (under there []) excluded accept (under there names) := by
  unfold isWanted
  rw [ofPath?_under hereStart thereStart nonempty isName, hereStart.stripDirectory?_under isName,
    thereStart.stripDirectory?_under isName]
  rfl

/-- A directory under one base can be listed if it can be under the other. -/
theorem SamePlaces.canList {files : FileSystem} {here there : List Component}
    (same : files.SamePlaces here there) (directory : files.isDirectory (under here []) = true)
    (listable : files.canList (under there []) = true) : files.canList (under here []) = true := by
  rcases (files.isDirectory_iff _).mp directory with ⟨location, located, -⟩
  rcases (canList_iff _).mp listable with ⟨other, other_located, isDirectory, readable⟩
  have one := same [] (by simp) (pathFault?_of_locate located) (pathFault?_of_locate other_located)
  exact (canList_iff _).mpr ⟨other, one.trans other_located, isDirectory, readable⟩

section Collected

variable {files : FileSystem} {here there : List Component}
  (hereStart : IsStart here) (thereStart : IsStart there) (same : files.SamePlaces here there)

include hereStart thereStart same

theorem sameNames_walk (isHere : files.canList (under here []) = true)
    (isThere : files.canList (under there []) = true)
    (fitsThere : files.FitsFrom (under here []) (under there []))
    (fitsHere : files.FitsFrom (under there []) (under here [])) :
    ∃ first second, files.walk (under here []) = .ok first ∧
      files.walk (under there []) = .ok second ∧ SameNames here there 0 first second := by
  rcases (canList_iff _).mp isHere with ⟨location, located, directory, readable⟩
  rcases (canList_iff _).mp isThere with ⟨other, other_located, -, -⟩
  have one := same [] (by simp) (pathFault?_of_locate located) (pathFault?_of_locate other_located)
  rw [located, other_located] at one
  obtain rfl := Except.ok.inj one
  have walks := walk_of_isDirectoryAt located directory
  have walks_too := walk_of_isDirectoryAt other_located directory
  rw [readable, if_neg Bool.false_ne_true] at walks walks_too
  have none_named : ∀ name ∈ ([] : List String), IsName name := by simp
  refine ⟨_, _, walks, walks_too, ?_⟩
  refine sameNames_filesBelow hereStart thereStart same _ none_named _ _ ?_
  intro names isName found
  rcases found with found_mem | found_mem
  · have fit := fitsThere _ walks _ found_mem
    rwa [hereStart.rebase_under thereStart isName] at fit
  · have fit := fitsHere _ walks_too _ found_mem
    rw [thereStart.rebase_under hereStart isName] at fit
    exact ⟨fit.2, fit.1⟩

/-- From both spellings of a directory the same source files are collected, in the same order. -/
theorem sameNames_sourceFiles {root other : Path} (root_eq : root.normalize = under here [])
    (other_eq : other.normalize = under there [])
    (isHere : files.canList (under here []) = true)
    (isThere : files.canList (under there []) = true)
    (fitsThere : files.FitsFrom (under here []) (under there []))
    (fitsHere : files.FitsFrom (under there []) (under here [])) (excluded : Path → Bool)
    (accept : Language → Bool) :
    ∃ first second, files.sourceFiles root excluded accept = .ok first ∧
      files.sourceFiles other excluded accept = .ok second ∧
      SameNames here there 0 first second := by
  rcases sameNames_walk hereStart thereStart same isHere isThere fitsThere fitsHere with
    ⟨first, second, walks, walks_too, found, proper, rfl, rfl⟩
  have wanted : ∀ names ∈ found,
      (isWanted (under here []) excluded accept ∘ under here) names =
        (isWanted (under there []) excluded accept ∘ under there) names := by
    intro names names_mem
    rcases proper names names_mem with ⟨some, isName⟩
    exact isWanted_under hereStart thereStart excluded accept (List.ne_nil_of_length_pos some)
      isName
  let kept := found.filter (isWanted (under here []) excluded accept ∘ under here)
  let before (one other : List String) : Bool :=
    Path.compareComponents (one.map .name) (other.map .name) != .gt
  have kept_proper : ∀ names ∈ kept, 0 < names.length ∧ ∀ name ∈ names, IsName name :=
    fun names names_mem => proper names (List.mem_of_mem_filter names_mem)
  refine ⟨_, _, ?_, ?_, kept.mergeSort before, ?_, rfl, rfl⟩
  · unfold sourceFiles
    simp only [root_eq, walks, List.filter_map]
    rw [List.map_mergeSort]
    intro one one_mem other other_mem
    simp only [before, Path.le,
      hereStart.compare_under (kept_proper one one_mem).2 (kept_proper other other_mem).2]
  · unfold sourceFiles
    simp only [other_eq, walks_too, List.filter_map]
    rw [← List.filter_congr wanted, List.map_mergeSort]
    intro one one_mem other other_mem
    simp only [before, Path.le,
      thereStart.compare_under (kept_proper one one_mem).2 (kept_proper other other_mem).2]
  · intro names names_mem
    exact kept_proper names (List.mem_mergeSort.mp names_mem)

omit same in
theorem fitUnder_of_mem_sourceFiles {root : Path} (root_eq : root.normalize = under here [])
    (fitsThere : files.FitsFrom (under here []) (under there [])) {excluded : Path → Bool}
    {accept : Language → Bool} {collected : List Path}
    (collects : files.sourceFiles root excluded accept = .ok collected) {names : List String}
    (isName : ∀ name ∈ names, IsName name) (names_mem : under here names ∈ collected) :
    FitUnder here there names := by
  rcases exists_walk_of_sourceFiles collects with ⟨found, walks, rfl⟩
  rw [root_eq] at walks
  have found_mem := List.mem_of_mem_filter (List.mem_mergeSort.mp names_mem)
  have fits := fitsThere found walks _ found_mem
  rwa [hereStart.rebase_under thereStart isName] at fits

end Collected

end FileSystem

end CodeFacts
