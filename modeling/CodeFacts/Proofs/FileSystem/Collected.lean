import CodeFacts.Proofs.FileSystem.Reached
import CodeFacts.Proofs.FileSystem.Ways

/-!
# What is collected below a root

A walk finds exactly the files to which ways lead from its root through directories that are not
skipped: the depth that it allows is enough for all of them. Of these files, the ones are collected
whose language is accepted and whose names below the root no pattern matches.
-/

namespace CodeFacts

namespace Path

theorem descend_concat (path : Path) (names : List String) (name : String) :
    path.descend (names ++ [name]) = (path.descend names).join ⟨name⟩ := by
  simp [descend]

theorem IsTidy.components_descend {path : Path} (tidy : path.IsTidy) {names : List String}
    (isName : ∀ name ∈ names, IsName name) :
    (path.descend names).components = path.components ++ names.map .name := by
  induction names generalizing path with
  | nil => simp [Path.descend]
  | cons name names ih =>
      rw [List.forall_mem_cons] at isName
      have below := ih (tidy.join isName.1) isName.2
      rw [tidy.components_join isName.1, List.append_assoc] at below
      exact below

/-- From the path at which it starts, a path that goes down looks like its names. -/
theorem IsTidy.stripDirectory?_descend {path : Path} (tidy : path.IsTidy)
    (start : path.components ≠ []) {names : List String} (isName : ∀ name ∈ names, IsName name) :
    (path.descend names).stripDirectory? path = some ⟨"/".intercalate names⟩ := by
  have relative : ofParts ⟨none, texts (names.map .name)⟩ = ⟨"/".intercalate names⟩ := by
    apply congrArg Path.mk
    apply String.toList_inj.mp
    simp [joinSlashes_eq_intercalate, texts, Function.comp_def, Component.text]
  rw [(tidy.descend isName).stripDirectory?_eq start (tidy.components_descend isName), relative]

theorem components_normalize_ne_nil (path : Path) : path.normalize.components ≠ [] := by
  unfold normalize
  cases kept : normalizeComponents path.components with
  | nil => decide
  | cons first rest =>
      have plain := path.isPlain_normalizeComponents
      rw [kept] at plain
      rw [plain.components_ofComponents (List.cons_ne_nil _ _)]
      exact List.cons_ne_nil _ _

end Path

namespace FileSystem

variable {files : FileSystem} {passed : List Location} {place location : Location} {path : Path}

section Target

variable {entry : Entry} {reached : Target}

theorem LeadsTo.target_eq (leads : files.LeadsTo passed place path entry reached) :
    files.target passed place path entry = reached := by
  cases leads with
  | file => rfl
  | directory => rfl
  | linkToFile located found => simp [target, located, found]
  | linkToDirectory located found new => simp [target, located, found, new]

theorem leadsTo_of_target (leads : files.target passed place path entry = reached)
    (somewhere : reached ≠ .nowhere) : files.LeadsTo passed place path entry reached := by
  subst leads
  cases entry with
  | file source => exact .file
  | directory => exact .directory
  | link text =>
      unfold target at somewhere ⊢
      dsimp only at somewhere ⊢
      split at somewhere
      · contradiction
      · rename_i final located
        split at somewhere
        · rename_i source found
          exact .linkToFile located found
        · rename_i found
          split at somewhere
          · contradiction
          · rename_i new
            rw [if_neg new]
            exact .linkToDirectory located found (by simpa using new)
        · contradiction

theorem leadsTo_iff (somewhere : reached ≠ .nowhere) :
    files.LeadsTo passed place path entry reached ↔
      files.target passed place path entry = reached :=
  ⟨LeadsTo.target_eq, fun leads => leadsTo_of_target leads somewhere⟩

end Target

/-- What a walk finds through an entry: a file itself, and what is below a directory, unless the
name is skipped. -/
theorem mem_filesThrough_iff {fuel : Nat} {name : String} {entry : Entry} {found : Path} :
    found ∈ files.filesThrough passed location path fuel (name, entry) ↔
      files.LeadsTo (location :: passed) (location ++ [name]) (path.join ⟨name⟩) entry .file ∧
          found = path.join ⟨name⟩ ∨
        name ∉ skippedDirectories ∧ ∃ below,
          files.LeadsTo (location :: passed) (location ++ [name]) (path.join ⟨name⟩) entry
            (.directory below) ∧
          found ∈ files.filesBelow (location :: passed) below (path.join ⟨name⟩) fuel := by
  simp only [leadsTo_iff, ne_eq, reduceCtorEq, not_false_eq_true]
  unfold filesThrough
  dsimp only
  cases files.target (location :: passed) (location ++ [name]) (path.join ⟨name⟩) entry with
  | file => simp
  | nowhere => simp
  | directory below =>
      by_cases skipped : name ∈ skippedDirectories
      · simp [skipped]
      · simp [skipped]

/-- Step: a walk finds in a directory that it can list what it finds through the entries. -/
theorem mem_filesBelow_succ_iff {fuel : Nat} {found : Path} :
    found ∈ files.filesBelow passed location path (fuel + 1) ↔
      files.IsListable path location ∧ ∃ name entry, (name, entry) ∈ files.list location ∧
        found ∈ files.filesThrough passed location path fuel (name, entry) := by
  constructor
  · intro found_mem
    exact ⟨isListable_of_mem_filesBelow found_mem, exists_of_mem_filesBelow found_mem⟩
  · rintro ⟨listable, name, entry, listed, through⟩
    rw [listable.filesBelow_succ]
    exact List.mem_flatMap.mpr ⟨(name, entry), listed, through⟩

/-- More fuel finds no less. -/
theorem filesBelow_mono {fuel more : Nat} (le : fuel ≤ more) :
    files.filesBelow passed location path fuel ⊆ files.filesBelow passed location path more := by
  induction fuel generalizing passed location path more with
  | zero => simp [filesBelow]
  | succ fuel ih =>
      cases more with
      | zero => omega
      | succ more =>
          intro found found_mem
          simp only [mem_filesBelow_succ_iff, mem_filesThrough_iff] at found_mem ⊢
          rcases found_mem with ⟨listable, name, entry, listed, file | ⟨kept, below, leads, inside⟩⟩
          · exact ⟨listable, name, entry, listed, Or.inl file⟩
          · refine ⟨listable, name, entry, listed, Or.inr ⟨kept, below, leads, ?_⟩⟩
            exact ih (by omega) inside

section Walk

variable {root : Path} {names : List String}

/-- What a walk finds from a directory that is reached is reached by more names. -/
theorem ReachesDirectory.reachesFile_of_mem_filesBelow
    (reaches : files.ReachesDirectory files.IsListable root names passed location)
    (kept : PassesNoSkipped names) {fuel : Nat} {found : Path}
    (found_mem : found ∈ files.filesBelow passed location (root.descend names) fuel) :
    ∃ names, files.ReachesFile files.IsListable root names ∧ PassesNoSkipped names.dropLast ∧
      found = root.descend names := by
  induction fuel generalizing names passed location with
  | zero => simp [filesBelow] at found_mem
  | succ fuel ih =>
      simp only [mem_filesBelow_succ_iff, mem_filesThrough_iff, ← Path.descend_concat] at found_mem
      rcases found_mem with
        ⟨listable, name, entry, listed, ⟨leads, rfl⟩ | ⟨goes, below, leads, inside⟩⟩
      · refine ⟨names ++ [name], .inside reaches listable listed leads, ?_, rfl⟩
        rwa [List.dropLast_concat]
      · refine ih (.down reaches listable listed leads) ?_ inside
        exact List.forall_mem_append.mpr ⟨kept, List.forall_mem_singleton.mpr goes⟩

/-- What a walk would find from a directory that is reached, it finds from the root with as much
more fuel as there are names. -/
theorem ReachesDirectory.filesBelow_subset {top : Location} (located : files.locate root = .ok top)
    (reaches : files.ReachesDirectory files.IsListable root names passed location)
    (kept : PassesNoSkipped names) (fuel : Nat) :
    files.filesBelow passed location (root.descend names) fuel ⊆
      files.filesBelow [] top root (fuel + names.length) := by
  induction reaches generalizing fuel with
  | root root_located found =>
      rw [located] at root_located
      obtain rfl := Except.ok.inj root_located
      exact List.Subset.refl _
  | @down names passed location below name entry above listable listed leads ih =>
      rcases List.forall_mem_append.mp kept with ⟨kept_above, kept_name⟩
      have through := ih kept_above (fuel + 1)
      rw [List.length_append, List.length_singleton, Nat.add_comm names.length, ← Nat.add_assoc]
      refine List.Subset.trans ?_ through
      intro found found_mem
      rw [Path.descend_concat] at leads found_mem
      refine mem_filesBelow_succ_iff.mpr ⟨listable, name, entry, listed, ?_⟩
      have kept_here := kept_name name List.mem_cons_self
      exact mem_filesThrough_iff.mpr (Or.inr ⟨kept_here, below, leads, found_mem⟩)

/-- From a directory a walk finds the files that are reached through directories that are not
skipped. -/
theorem mem_filesBelow_root_iff {top : Location} (located : files.locate root = .ok top)
    (directory : files.entry? top = some .directory) (path : Path) :
    path ∈ files.filesBelow [] top root files.walkFuel ↔
      ∃ names, files.ReachesFile files.IsListable root names ∧ PassesNoSkipped names.dropLast ∧
        path = root.descend names := by
  constructor
  · intro path_mem
    have reaches : files.ReachesDirectory files.IsListable root [] [] top := .root located directory
    exact reaches.reachesFile_of_mem_filesBelow (by simp [PassesNoSkipped]) path_mem
  · rintro ⟨names, reaches, kept, rfl⟩
    cases reaches with
    | root other_located file =>
        rw [located] at other_located
        obtain rfl := Except.ok.inj other_located
        simp [directory] at file
    | @inside names passed location name entry above listable listed leads =>
        rw [List.dropLast_concat] at kept
        have enough := above.length_lt_walkFuel
        refine filesBelow_mono (by omega) (above.filesBelow_subset located kept 1 ?_)
        rw [Path.descend_concat] at leads ⊢
        refine mem_filesBelow_succ_iff.mpr ⟨listable, name, entry, listed, ?_⟩
        exact mem_filesThrough_iff.mpr (Or.inl ⟨leads, rfl⟩)

/-- A file is all that is reached from itself. -/
theorem reachesFile_iff_of_file {opens : Path → Location → Prop} {top : Location} {source : SourceFile}
    (located : files.locate root = .ok top) (file : files.entry? top = some (.file source)) :
    files.ReachesFile opens root names ↔ names = [] := by
  constructor
  · intro reaches
    cases reaches with
    | root => rfl
    | inside above =>
        rcases above.exists_root with ⟨other, other_located, directory⟩
        rw [located] at other_located
        obtain rfl := Except.ok.inj other_located
        simp [file] at directory
  · rintro rfl
    exact .root located file

theorem mem_walk_iff {found : List Path} (walked : files.walk root = .ok found) (path : Path) :
    path ∈ found ↔
      ∃ names, files.ReachesFile files.IsListable root names ∧ PassesNoSkipped names.dropLast ∧
        path = root.descend names := by
  unfold walk at walked
  split at walked
  · contradiction
  rename_i top located
  split at walked
  · rename_i source file
    obtain rfl := Except.ok.inj walked
    simp [reachesFile_iff_of_file located file, PassesNoSkipped, Path.descend]
  · rename_i directory
    split at walked
    · contradiction
    obtain rfl := Except.ok.inj walked
    exact mem_filesBelow_root_iff located directory path
  · contradiction

end Walk

section Collected

variable {opens : Path → Location → Prop} {root : Path} {names : List String} {excluded : Path → Bool}
  {accept : Language → Bool}

/-- A file is wanted that is reached from a root by names: no directory below the root on the way to
it is skipped, its language is accepted, and no pattern matches the names. -/
structure IsWantedFile (files : FileSystem) (opens : Path → Location → Prop) (root : Path)
    (excluded : Path → Bool) (accept : Language → Bool) (names : List String) : Prop where
  reaches : files.ReachesFile opens root names
  kept : PassesNoSkipped names.dropLast
  language : ∃ language, Language.ofPath? (root.descend names) = some language ∧
    accept language = true
  included : excluded ⟨"/".intercalate names⟩ = false

/-- A file that a walk from a normalized root comes to is wanted for its names. -/
theorem isWanted_descend_iff (isName : ∀ name ∈ names, Path.IsName name) :
    isWanted root.normalize excluded accept (root.normalize.descend names) = true ↔
      (∃ language, Language.ofPath? (root.normalize.descend names) = some language ∧
        accept language = true) ∧ excluded ⟨"/".intercalate names⟩ = false := by
  rw [isWanted_iff, root.isTidy_normalize.stripDirectory?_descend root.components_normalize_ne_nil
    isName, Option.getD_some]

theorem mem_sourceFiles_iff {collected : List Path}
    (collects : files.sourceFiles root excluded accept = .ok collected) (path : Path) :
    path ∈ collected ↔
      ∃ names, files.IsWantedFile files.IsListable root.normalize excluded accept names ∧
        path = root.normalize.descend names := by
  rcases exists_walk_of_sourceFiles collects with ⟨found, walked, rfl⟩
  rw [List.mem_mergeSort, List.mem_filter, mem_walk_iff walked]
  constructor
  · rintro ⟨⟨names, reaches, kept, rfl⟩, wanted⟩
    rcases (isWanted_descend_iff (isName_of_reachesFile reaches)).mp wanted with
      ⟨language, included⟩
    exact ⟨names, ⟨reaches, kept, language, included⟩, rfl⟩
  · rintro ⟨names, wanted, rfl⟩
    refine ⟨⟨names, wanted.reaches, wanted.kept, rfl⟩, ?_⟩
    rw [isWanted_descend_iff (isName_of_reachesFile wanted.reaches)]
    exact ⟨wanted.language, wanted.included⟩

/-- Where every directory can be listed, it makes no difference which ones can be. -/
theorem IsOpenBelow.isWantedFile_iff (isOpen : files.IsOpenBelow root) :
    files.IsWantedFile files.IsListable root excluded accept names ↔
      files.IsWantedFile (fun _ _ => True) root excluded accept names := by
  constructor
  · rintro ⟨reaches, kept, language, included⟩
    refine ⟨?_, kept, language, included⟩
    cases reaches with
    | root located found => exact .root located found
    | inside above opened listed leads => exact .inside above.anyway trivial listed leads
  · rintro ⟨reaches, kept, language, included⟩
    refine ⟨?_, kept, language, included⟩
    cases reaches with
    | root located found => exact .root located found
    | inside above opened listed leads =>
        rw [List.dropLast_concat] at kept
        exact .inside (above.listable isOpen kept) (isOpen _ _ _ above kept) listed leads

theorem exists_sourceFiles
    (exist : files.isFile root.normalize = true ∨ files.canList root.normalize = true)
    (excluded : Path → Bool) (accept : Language → Bool) :
    ∃ collected, files.sourceFiles root excluded accept = .ok collected := by
  rcases exist with file | listable
  · have walked : files.walk root.normalize = .ok [root.normalize] := by
      unfold isFile lookup at file
      unfold walk
      cases located : files.locate root.normalize with
      | error fault => simp [located] at file
      | ok location =>
          cases found : files.entry? location with
          | none => simp [located, found] at file
          | some entry => cases entry <;> simp_all
    exact ⟨_, sourceFiles_of_walk walked⟩
  · exact exists_sourceFiles_of_canList listable excluded accept

/-- From a file, or a directory that can be listed, source files are collected in the order of their
paths, and exactly the wanted files are collected. What the system cannot list below is not reached;
where it can list every directory, all entries are. From a directory that may not be listed nothing
is collected, and the system says why. -/
theorem sourceFiles_eq_wanted_files (files : FileSystem) (root : Path) (excluded : Path → Bool)
    (accept : Language → Bool) :
    (files.isFile root.normalize = true ∨ files.canList root.normalize = true →
      ∃ collected, files.sourceFiles root excluded accept = .ok collected ∧
        OrderedList.Increasing Path.compare collected ∧
        (∀ path, path ∈ collected ↔
          ∃ names, files.IsWantedFile files.IsListable root.normalize excluded accept names ∧
            path = root.normalize.descend names) ∧
        (files.IsOpenBelow root.normalize → ∀ path, path ∈ collected ↔
          ∃ names, files.IsWantedFile (fun _ _ => True) root.normalize excluded accept names ∧
            path = root.normalize.descend names)) ∧
      (files.isDirectory root.normalize = true → files.canList root.normalize = false →
        files.sourceFiles root excluded accept =
          .error (.io root.normalize .permissionDenied)) := by
  refine ⟨?_, fun directory unlistable => sourceFiles_of_not_canList directory unlistable _ _⟩
  intro exist
  rcases exists_sourceFiles exist excluded accept with ⟨collected, collects⟩
  have mem_iff := mem_sourceFiles_iff collects
  refine ⟨collected, collects, increasing_sourceFiles collects, mem_iff, ?_⟩
  intro isOpen path
  simp only [mem_iff, isOpen.isWantedFile_iff]

end Collected

/-- A directory of a skipped name with a link out of it, from where another link leads back. -/
def linkedTree : FileSystem where
  entries :=
    [(["out"], .directory), (["out", "lib"], .link ⟨"../src"⟩), (["out", "dist"], .directory),
      (["out", "dist", "d.ts"], .file ⟨ByteArray.empty, Node.empty⟩),
      (["src"], .directory), (["src", "c.ts"], .file ⟨ByteArray.empty, Node.empty⟩),
      (["src", "back"], .link ⟨"/out"⟩)]
  workingDirectory := ⟨"/src"⟩

theorem isWantedFile_linkedTree {excluded : Path → Bool}
    (included : excluded ⟨"lib/c.ts"⟩ = false) :
    linkedTree.IsWantedFile (fun _ _ => True) ⟨"/out"⟩ excluded Language.isEcmaScript
      ["lib", "c.ts"] := by
  have root : linkedTree.ReachesDirectory (fun _ _ => True) ⟨"/out"⟩ [] [] ["out"] :=
    .root rfl rfl
  have lib : linkedTree.ReachesDirectory (fun _ _ => True) ⟨"/out"⟩ ["lib"] [["out"]] ["src"] :=
    .down root trivial (.head _) (.linkToDirectory rfl rfl (by decide))
  exact ⟨.inside lib trivial (.head _) .file, by decide, ⟨.typeScript, by decide, rfl⟩, included⟩

theorem sourceFiles_eq_wanted_files_of_linkedTree :
    linkedTree.canList (Path.normalize ⟨"/src/../out/"⟩) = true ∧
      linkedTree.IsOpenBelow (Path.normalize ⟨"/src/../out/"⟩) ∧
      (∃ collected, linkedTree.sourceFiles ⟨"/src/../out/"⟩ (fun path => path.text == "back")
          Language.isEcmaScript = .ok collected ∧
        ⟨"/out/lib/c.ts"⟩ ∈ collected ∧ ⟨"/out/dist/d.ts"⟩ ∉ collected) ∧
      (linkedTree.protect ["out"]).sourceFiles ⟨"/src/../out/"⟩ (fun path => path.text == "back")
        Language.isEcmaScript = .error (.io ⟨"/out"⟩ .permissionDenied) := by
  have normal : Path.normalize ⟨"/src/../out/"⟩ = ⟨"/out"⟩ := by decide
  have listable : linkedTree.canList (Path.normalize ⟨"/src/../out/"⟩) = true := by
    rw [normal]
    rfl
  have isOpen : linkedTree.IsOpenBelow (Path.normalize ⟨"/src/../out/"⟩) := by
    have short : ∀ held ∈ linkedTree.entries, ∀ name ∈ held.1,
        name.utf8ByteSize ≤ 4 ∧ '\x00' ∉ name.toList := by decide
    rw [normal]
    exact isOpenBelow_of_short rfl (by decide) (by decide) short (by decide)
  refine ⟨listable, isOpen, ?_, ?_⟩
  · rcases (sourceFiles_eq_wanted_files linkedTree ⟨"/src/../out/"⟩
      (fun path => path.text == "back") Language.isEcmaScript).1 (Or.inr listable) with
      ⟨collected, collects, -, -, mem_iff⟩
    refine ⟨collected, collects, ?_, ?_⟩
    · rw [mem_iff isOpen, normal]
      exact ⟨_, isWantedFile_linkedTree (by decide), by decide⟩
    · rw [mem_iff isOpen, normal]
      rintro ⟨names, wanted, same⟩
      have tidy : Path.IsTidy ⟨"/out"⟩ := by decide
      have means := tidy.components_descend (isName_of_reachesFile wanted.reaches)
      have written : Path.components ⟨"/out/dist/d.ts"⟩ =
          Path.components ⟨"/out"⟩ ++ ["dist", "d.ts"].map .name := by decide
      rw [← same, written] at means
      have way : ["dist", "d.ts"] = names :=
        List.map_injective_iff.mpr (fun _ _ => Component.name.inj) (List.append_cancel_left means)
      subst way
      exact wanted.kept "dist" (by decide) (by decide)
  · have fails := (sourceFiles_eq_wanted_files (linkedTree.protect ["out"]) ⟨"/src/../out/"⟩
      (fun path => path.text == "back") Language.isEcmaScript).2
    rw [normal] at fails
    exact fails rfl rfl

end FileSystem

end CodeFacts
