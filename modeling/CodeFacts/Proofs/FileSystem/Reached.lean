import CodeFacts.Proofs.FileSystem.WorkingDirectory

/-!
# Where a walk is

A walk keeps the location of the directory that it lists beside the path by which it came there,
and does not locate the path again. If the path can be located at all, it leads to this location:
a path is located through each of its fronts, and the walk steps from one to the next. So what the
walk finds as a file is never a directory when it is looked up by its path. It need not be a file
then, since the whole path may be too long or pass too many links.

For the same reason a path that leads to a file has a parent that leads to a directory.
-/

namespace CodeFacts.FileSystem

open CodeFacts.Path (IsName)

variable {files : FileSystem}

section Follow

variable {expand : Location → List String → Except FileFault Location}

/-- What one segment does: it fails, leads to another location, or is a link to expand. -/
theorem followSegments_cons_cases (location : Location) (segment : String) :
    (∃ fault, ∀ rest,
      files.followSegments false expand location (segment :: rest) = .error fault) ∨
    (∃ next, ∀ rest, files.followSegments false expand location (segment :: rest) =
      files.followSegments false expand next rest) ∨
    ∃ start front, ∀ rest, files.followSegments false expand location (segment :: rest) =
      expand start (front ++ rest) := by
  simp only [followSegments]
  split
  · exact Or.inl ⟨_, fun _ => rfl⟩
  split
  · exact Or.inr (Or.inl ⟨_, fun _ => rfl⟩)
  split
  · exact Or.inr (Or.inl ⟨_, fun _ => rfl⟩)
  split
  · exact Or.inl ⟨_, fun _ => rfl⟩
  split
  · exact Or.inl ⟨_, fun _ => rfl⟩
  · exact Or.inr (Or.inr ⟨_, _, fun _ => rfl⟩)
  · exact Or.inr (Or.inl ⟨_, fun _ => rfl⟩)

variable {rest : List String} {final : Location}

/-- If links can be divided, so can every way: its front leads somewhere, and from there the rest
leads on, perhaps with fewer links to spare. -/
theorem followSegments_append {links : Nat}
    (same : files.follow false links = files.followSegments false expand)
    (expand_append : ∀ start segments, expand start (segments ++ rest) = .ok final →
      ∃ between fewer, expand start segments = .ok between ∧
        files.follow false fewer between rest = .ok final)
    (location : Location) (segments : List String)
    (leads : files.followSegments false expand location (segments ++ rest) = .ok final) :
    ∃ between fewer, files.followSegments false expand location segments = .ok between ∧
      files.follow false fewer between rest = .ok final := by
  induction segments generalizing location with
  | nil => exact ⟨location, links, rfl, by rwa [same]⟩
  | cons segment segments ih =>
      rw [List.cons_append] at leads
      rcases files.followSegments_cons_cases location segment with
        ⟨fault, fails⟩ | ⟨next, goes⟩ | ⟨start, front, expands⟩
      · rw [fails] at leads
        contradiction
      · rw [goes] at leads ⊢
        exact ih next leads
      · rw [expands, ← List.append_assoc] at leads
        rw [expands]
        exact expand_append start _ leads

/-- A way that leads somewhere can be divided anywhere. -/
theorem follow_append (links : Nat) (location : Location) (segments : List String)
    (leads : files.follow false links location (segments ++ rest) = .ok final) :
    ∃ between fewer, files.follow false links location segments = .ok between ∧
      files.follow false fewer between rest = .ok final := by
  induction links generalizing location segments with
  | zero =>
      have same : files.follow false 0 = files.followSegments false _ := rfl
      refine followSegments_append same ?_ location segments leads
      intro start segments expanded
      contradiction
  | succ links ih =>
      have same : files.follow false (links + 1) = files.followSegments false _ := rfl
      exact followSegments_append same ih location segments leads

/-- A name leads to its own place if no link stands there. -/
theorem eq_of_follow_name {links : Nat} {location : Location} {name : String}
    (isName : IsName name) {entry : Entry} (found : files.entry? (location ++ [name]) = some entry)
    (noLink : ∀ target, entry ≠ .link target)
    (leads : files.follow false links location [name] = .ok final) :
    final = location ++ [name] := by
  rcases files.follow_eq false links with ⟨expand, follow⟩
  rw [follow, followSegments, found] at leads
  simp only [isName.1, isName.2.1, isName.2.2.1, beq_iff_eq, Bool.or_eq_true, or_self,
    if_false] at leads
  split at leads
  · contradiction
  split at leads
  · contradiction
  cases entry with
  | link target => exact absurd rfl (noLink target)
  | _ => exact (Except.ok.inj leads).symm

end Follow

/-- A path that is located is located through the directory in which its last name stands. -/
theorem locate_join {path : Path} (absolute : path.isAbsolute = true) (tidy : path.IsTidy)
    {name : String} (isName : IsName name) {final : Location}
    (located : files.locate (path.join ⟨name⟩) = .ok final) :
    ∃ between fewer, files.locate path = .ok between ∧
      files.follow false fewer between [name] = .ok final := by
  have fits := pathFault?_of_locate located
  have path_fits := pathFault?_of_join tidy isName fits
  unfold locate at located ⊢
  rw [fits, Path.join_of_isAbsolute (Path.isAbsolute_join absolute _)] at located
  rw [path_fits, Path.join_of_isAbsolute absolute]
  dsimp only at located ⊢
  unfold Path.segmentTexts at located ⊢
  rcases tidy.segments_join isName with ⟨root, segments⟩ | ⟨-, segments⟩
  · -- The root ends in an empty segment of its own, which the longer path does not have.
    rw [segments] at located
    have path_segments : path.segments = [[], []] := by
      rw [Path.segments, root]
      decide
    rw [path_segments]
    exact follow_append linkLimit [] [""] (by simpa using located)
  · rw [segments, List.map_append] at located
    exact follow_append linkLimit [] _ (by simpa using located)

theorem locate_root_parent (files : FileSystem) : files.locate ⟨"/.."⟩ = .ok [] := by
  have fault : pathFault? ⟨"/.."⟩ = none := by decide
  have segments : (files.workingDirectory.join ⟨"/.."⟩).segmentTexts = ["", ".."] := by
    rw [Path.join, if_pos (by decide)]
    decide
  unfold locate
  rw [fault, segments]
  rfl

theorem isDirectoryAt_of_follow {links : Nat} {location final : Location} {name : String}
    (leads : files.follow false links location [name] = .ok final) :
    files.isDirectoryAt location = true := by
  rcases files.follow_eq false links with ⟨expand, follow⟩
  rw [follow, followSegments] at leads
  cases directory : files.isDirectoryAt location with
  | false => simp [directory] at leads
  | true => rfl

/-- A file stands in a directory, and the parent of its path leads there. -/
theorem exists_isDirectory_parent? {path : Path} (normal : path.IsNormal)
    (isFile : files.isFile path = true) :
    ∃ directory, path.parent? = some directory ∧ Path.IsNormal directory ∧
      files.isDirectory directory = true := by
  rcases normal.cases with rfl | rfl | ⟨directory, name, directory_normal, isName, rfl⟩
  · unfold FileSystem.isFile lookup at isFile
    rw [locate_root] at isFile
    contradiction
  · unfold FileSystem.isFile lookup at isFile
    rw [locate_root_parent] at isFile
    contradiction
  · refine ⟨directory, directory_normal.isTidy.parent?_join isName, directory_normal, ?_⟩
    unfold FileSystem.isFile lookup at isFile
    cases located : files.locate (directory.join ⟨name⟩) with
    | error fault => simp [located] at isFile
    | ok final =>
        rcases locate_join directory_normal.absolute directory_normal.isTidy isName located with
          ⟨between, fewer, between_located, leads⟩
        exact (files.isDirectory_iff directory).mpr
          ⟨between, between_located, isDirectoryAt_of_follow leads⟩

/-- What a directory lists under a name is what stands there. -/
theorem entry?_of_mem_list {location : Location} {name : String} {entry : Entry}
    (entry_mem : (name, entry) ∈ files.list location) :
    files.entry? (location ++ [name]) = some entry := by
  rw [list_eq] at entry_mem
  rcases List.mem_filterMap.mp entry_mem with ⟨⟨place, held⟩, held_mem, listed⟩
  have at_place : location ++ [name] = place := place_of_listed? listed
  have same : held = entry := by
    unfold listed? at listed
    split at listed
    · rcases Option.map_eq_some_iff.mp listed with ⟨last, -, found⟩
      exact congrArg Prod.snd found
    · contradiction
  subst at_place same
  have lookup : files.entries.find? (fun other => other.1 == location ++ [name]) =
      some (location ++ [name], held) := by
    cases found : files.entries.find? (fun other => other.1 == location ++ [name]) with
    | none =>
        have absent := List.find?_eq_none.mp found _ held_mem
        simp at absent
    | some other =>
        have there : other.1 = location ++ [name] := by simpa using List.find?_some found
        exact congrArg some (List.inj_on_of_nodup_map files.distinct
          (List.mem_of_find?_eq_some found) held_mem there)
  simp [ entry?, lookup]

/-- A path leads to a location, if it leads anywhere. -/
def LeadsAtMostTo (files : FileSystem) (path : Path) (location : Location) : Prop :=
  ∀ final, files.locate path = .ok final → final = location

theorem leadsAtMostTo_of_locate {path : Path} {location : Location}
    (located : files.locate path = .ok location) : files.LeadsAtMostTo path location := by
  intro final final_located
  rw [located] at final_located
  exact (Except.ok.inj final_located).symm

theorem isDirectory_of_leadsAtMostTo {path : Path} {location : Location} {source : SourceFile}
    (leads : files.LeadsAtMostTo path location)
    (found : files.entry? location = some (.file source)) : files.isDirectory path = false := by
  rw [Bool.eq_false_iff]
  intro directory
  rcases (files.isDirectory_iff path).mp directory with ⟨final, located, there⟩
  rw [leads final located, isDirectoryAt, found] at there
  contradiction

/-- A link leads nowhere, to the file or to the directory where its path leads. -/
theorem target_link_cases (files : FileSystem) (entered : List Location) (place : Location)
    (path text : Path) :
    files.target entered place path (.link text) = .nowhere ∨
    ∃ final, files.locate path = .ok final ∧
      (files.target entered place path (.link text) = .file ∧
          (∃ source, files.entry? final = some (.file source)) ∨
        files.target entered place path (.link text) = .directory final) := by
  unfold target
  cases files.locate path with
  | error fault => exact Or.inl rfl
  | ok final =>
      simp only [Except.ok.injEq, exists_eq_left']
      cases files.entry? final with
      | none => exact Or.inl rfl
      | some entry =>
          cases entry with
          | file source => exact Or.inr (Or.inl ⟨rfl, source, rfl⟩)
          | link other => exact Or.inl rfl
          | directory =>
              dsimp only
              split
              · exact Or.inl rfl
              · exact Or.inr (Or.inr rfl)

section Steps

variable {path : Path} (absolute : path.isAbsolute = true)
  (tidy : path.IsTidy) {location : Location} (leads : files.LeadsAtMostTo path location)
  {name : String} {entry : Entry} (entry_mem : (name, entry) ∈ files.list location)

include absolute tidy leads entry_mem

theorem leadsAtMostTo_join (noLink : ∀ target, entry ≠ .link target) :
    files.LeadsAtMostTo (path.join ⟨name⟩) (location ++ [name]) := by
  intro final located
  have isName := isName_of_mem_list entry_mem
  rcases locate_join absolute tidy isName located with ⟨between, fewer, path_located, follows⟩
  obtain rfl := leads between path_located
  exact eq_of_follow_name isName (entry?_of_mem_list entry_mem) noLink follows

/-- Step: an entry that a walk takes for a file is no directory, and one that it takes for a
directory is where its path leads. -/
theorem target_spec (entered : List Location) :
    match files.target entered (location ++ [name]) (path.join ⟨name⟩) entry with
    | .file => files.isDirectory (path.join ⟨name⟩) = false
    | .directory below => files.LeadsAtMostTo (path.join ⟨name⟩) below
    | .nowhere => True := by
  cases entry with
  | file source =>
      have leads_on := leadsAtMostTo_join absolute tidy leads entry_mem (by simp)
      exact isDirectory_of_leadsAtMostTo leads_on (entry?_of_mem_list entry_mem)
  | directory => exact leadsAtMostTo_join absolute tidy leads entry_mem (by simp)
  | link target =>
      rcases files.target_link_cases entered (location ++ [name]) (path.join ⟨name⟩) target with
        nowhere | ⟨final, located, ⟨file, source, found⟩ | directory⟩
      · rw [nowhere]
        trivial
      · rw [file]
        exact isDirectory_of_leadsAtMostTo (leadsAtMostTo_of_locate located) found
      · rw [directory]
        exact leadsAtMostTo_of_locate located

end Steps

/-- Nothing that a walk finds is a directory. -/
theorem isDirectory_of_mem_filesBelow {fuel : Nat} {entered : List Location} {location : Location} {path : Path}
    (absolute : path.isAbsolute = true) (tidy : path.IsTidy)
    (leads : files.LeadsAtMostTo path location) {found : Path}
    (found_mem : found ∈ files.filesBelow entered location path fuel) :
    files.isDirectory found = false := by
  induction fuel generalizing entered location path with
  | zero => simp [filesBelow] at found_mem
  | succ fuel ih =>
      rcases exists_of_mem_filesBelow found_mem with ⟨name, entry, entry_mem, through⟩
      have isName := isName_of_mem_list entry_mem
      have step := target_spec absolute tidy leads entry_mem (location :: entered)
      unfold filesThrough at through
      dsimp only at through
      cases reached : files.target (location :: entered) (location ++ [name]) (path.join ⟨name⟩)
          entry with
      | file =>
          rw [reached] at step through
          obtain rfl := List.mem_singleton.mp through
          exact step
      | nowhere =>
          rw [reached] at through
          contradiction
      | directory below =>
          rw [reached] at step through
          dsimp only at through
          split at through
          · contradiction
          · exact ih (Path.isAbsolute_join absolute _) (tidy.join isName) step through

theorem isDirectory_of_mem_walk {root : Path} (normal : root.IsNormal) {found : List Path}
    (walked : files.walk root = .ok found) {path : Path} (path_mem : path ∈ found) : files.isDirectory path = false := by
  unfold walk at walked
  split at walked
  · contradiction
  rename_i location located
  have leads := leadsAtMostTo_of_locate located
  split at walked
  · rename_i file
    obtain rfl := Except.ok.inj walked
    obtain rfl := List.mem_singleton.mp path_mem
    exact isDirectory_of_leadsAtMostTo leads file
  · split at walked
    · contradiction
    obtain rfl := Except.ok.inj walked
    exact isDirectory_of_mem_filesBelow normal.absolute normal.isTidy leads path_mem
  · contradiction

/-- What leads below a normal path is normal. -/
theorem LeadsBelow.isNormal {root path : Path} (leads : LeadsBelow root path)
    (normal : root.IsNormal) (tidy : path.IsTidy) : path.IsNormal := by
  rcases leads with ⟨names, means, -⟩
  rcases Path.components_of_isAbsolute normal.absolute with ⟨steps, rooted⟩
  have path_rooted : path.components = .root :: (steps ++ names.map .name) := by
    rw [means, rooted, List.cons_append]
  refine ⟨?_, ?_⟩
  · rw [← tidy.ofComponents_components, path_rooted, Path.ofComponents_root]
    simp [Path.isAbsolute, Path.ofParts]
  · rw [Path.normalize, means, Path.normalizeComponents_append_names normal.isStart.fixed, ← means,
      tidy.ofComponents_components]

section SourceFiles

variable {root : Path} {excluded : Path → Bool} {accept : Language → Bool}

variable {collected : List Path} (collects : files.sourceFiles root excluded accept = .ok collected)

include collects

/-- Source files are collected in the order of their paths. -/
theorem increasing_sourceFiles : OrderedList.Increasing Path.compare collected := by
  have distinct := (sourceFiles_spec collects).1
  rcases exists_walk_of_sourceFiles collects with ⟨found, -, rfl⟩
  rw [((List.mergeSort_perm _ _).map Path.components).nodup_iff] at distinct
  exact Path.increasing_mergeSort distinct

/-- The source files below an absolute directory have normal paths, and none is a directory. -/
theorem sourceFiles_of_isAbsolute (absolute : root.isAbsolute = true) :
    ∀ path ∈ collected, path.IsNormal ∧ files.isDirectory path = false := by
  intro path path_mem
  have normal := Path.isNormal_normalize absolute
  rcases (sourceFiles_spec collects).2 path path_mem with ⟨tidy, isSource⟩
  refine ⟨isSource.leadsBelow.isNormal normal tidy, ?_⟩
  rcases exists_walk_of_sourceFiles collects with ⟨found, walked, rfl⟩
  have found_mem := List.mem_of_mem_filter (List.mem_mergeSort.mp path_mem)
  exact isDirectory_of_mem_walk normal walked found_mem

end SourceFiles

end CodeFacts.FileSystem
